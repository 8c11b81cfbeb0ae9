import Strongbox.Proofs.Aead.Session

/-!
# The course of a session depends on lengths only

Two sessions are run side by side, in one mode, under keys of one
length. They are given the same calls in the same order, with byte
strings of the same lengths – and of any bytes whatever.
`course_depends_on_lengths` says that their answers cannot tell them
apart: each call is granted by both or refused by both for the same
cause, and both stand in the same phase after it and show the same text.
The one exception is a verification, which one of them may pass and the
other fail; it leaves no trace in what comes later.

The two states are related by what they have in common
(`Session.Alike`): the phase, the name of the cipher, and the lengths
that have been counted so far. Nothing else is looked at before a call
is granted, so for each operation the two results agree (`Agree`), and a
step leaves the two states as alike as they were.

* `Agree` relates two results: the same refusal, or two related values.
  It passes through `map`, `bind` and `if`, so that a lemma about an
  operation follows the operation's own text.
* `Gcm.Alike`, `Ccm.Alike` and `Stream.Alike` list what the two states
  have in common: names and lengths, no bytes. `Session.Alike` adds the
  phase.
* `Call.Alike` is the same call with byte strings of the same lengths,
  and `Call.AnsweredAlike` what an onlooker may see of the two answers.
* `Alike.step` and `Alike.after` are the step and the run, and the last
  theorem reads them off for two sessions made of keys of one length.
-/

namespace Strongbox.Aead

/-! ## Results that agree -/

section Agree

variable {ε α β γ δ : Type}

/-- **Two results that agree**: the same refusal, or two values that are
related. -/
def Agree (R : α → β → Prop) : Except ε α → Except ε β → Prop
  | .error e₁, .error e₂ => e₁ = e₂
  | .ok a, .ok b => R a b
  | .error _, .ok _ | .ok _, .error _ => False

variable {R : α → β → Prop} {S : γ → δ → Prop}

/-- What two results that agree can be: one refusal on both sides, or
two related values. -/
theorem Agree.cases {x : Except ε α} {y : Except ε β} (h : Agree R x y) :
    (∃ e, x = .error e ∧ y = .error e) ∨ ∃ a b,
    x = .ok a ∧ y = .ok b ∧ R a b := by
  cases x <;> cases y
  case error.error e₁ e₂ =>
    obtain rfl : e₁ = e₂ := h
    exact .inl ⟨e₁, rfl, rfl⟩
  case ok.ok a b => exact .inr ⟨a, b, rfl, rfl, h⟩
  all_goals exact h.elim

/-- Two results that agree still do when each is mapped, by functions
that take related values to related ones. -/
theorem Agree.map {x : Except ε α} {y : Except ε β} (h : Agree R x y)
    {f : α → γ} {g : β → δ} (hfg : ∀ {a b}, R a b → S (f a) (g b)) :
    Agree S (x.map f) (y.map g) := by
  obtain ⟨e, rfl, rfl⟩ | ⟨a, b, rfl, rfl, hab⟩ := h.cases
  · exact rfl
  · exact hfg hab

/-- Two computations that go on from results that agree end in results
that agree, if they do from related values. -/
theorem Agree.bind {x : Except ε α} {y : Except ε β} (h : Agree R x y)
    {f : α → Except ε γ} {g : β → Except ε δ}
    (hfg : ∀ {a b}, R a b → Agree S (f a) (g b)) :
    Agree S (x >>= f) (y >>= g) := by
  obtain ⟨e, rfl, rfl⟩ | ⟨a, b, rfl, rfl, hab⟩ := h.cases
  · exact rfl
  · exact hfg hab

/-- Two choices made by the same criterion agree if they do on both
sides. The criterion may be stated in the terms of either state, as long
as the two come to the same. -/
theorem Agree.ite {p q : Prop} [Decidable p] [Decidable q] (hpq : p ↔ q)
    {x x' : Except ε α} {y y' : Except ε β} (h : Agree R x y)
    (h' : Agree R x' y') :
    Agree R (if p then x else x') (if q then y else y') := by
  by_cases hp : p
  · rw [if_pos hp, if_pos (hpq.mp hp)]
    exact h
  · rw [if_neg hp, if_neg (mt hpq.mpr hp)]
    exact h'

end Agree

/-- An empty byte string is one without length, so that of two of one
length both are empty or neither is. The code asks for emptiness in
places. -/
theorem isEmpty_congr {a b : Bytes} (h : a.length = b.length) :
    a.isEmpty = b.isEmpty := by
  rw [Bool.eq_iff_iff, List.isEmpty_iff_length_eq_zero,
    List.isEmpty_iff_length_eq_zero, h]

/-- Two blocks cut to one length: what is left of them is equally long,
whatever they hold. -/
theorem length_take_toBytes (b₁ b₂ : Block) (length : Nat) :
    (b₁.toBytes.take length).length = (b₂.toBytes.take length).length := by
  rw [List.length_take, List.length_take, Block.length_toBytes,
    Block.length_toBytes]

/-! ## Streams -/

/-- **Streams in Galois/counter mode that have come equally far.** Start
block, keystream and hash may differ in every byte; nothing that is
granted or refused is decided by them. -/
structure Gcm.Alike (g₁ g₂ : Gcm) : Prop where
  /-- The ciphers have one name. -/
  name : g₁.cipher.name = g₂.cipher.name
  /-- There is as much associated data. -/
  aadLength : g₁.aadLength = g₂.aadLength
  /-- The messages are equally long. -/
  messageLength : g₁.messageLength = g₂.messageLength
  /-- Both messages have begun, or neither. -/
  inMessage : g₁.inMessage = g₂.inMessage

namespace Gcm.Alike

variable {g₁ g₂ : Gcm}

theorem reset (h : Alike g₁ g₂) {nonce₁ nonce₂ : Bytes}
    (hn : nonce₁.length = nonce₂.length) :
    Agree Alike (g₁.reset nonce₁) (g₂.reset nonce₂) :=
  Agree.ite (by rw [isEmpty_congr hn]) rfl ⟨h.name, rfl, rfl, rfl⟩

theorem authenticate (h : Alike g₁ g₂) {data₁ data₂ : Bytes}
    (hdata : data₁.length = data₂.length) :
    Agree Alike (g₁.authenticate data₁) (g₂.authenticate data₂) := by
  refine Agree.ite (by rw [h.inMessage])
    rfl (Agree.ite (by rw [h.aadLength, hdata]) rfl ?_)
  exact ⟨h.name, congrArg₂ _ h.aadLength hdata, h.messageLength, h.inMessage⟩

theorem beginMessage (h : Alike g₁ g₂) :
    Alike g₁.beginMessage g₂.beginMessage := by
  unfold Gcm.beginMessage
  rw [h.inMessage]
  split
  · exact h
  · exact ⟨h.name, h.aadLength, h.messageLength, rfl⟩

theorem transform (h : Alike g₁ g₂) (direction : Direction)
    {piece₁ piece₂ : Bytes} (hpiece : piece₁.length = piece₂.length) :
    Agree (fun out₁ out₂ => out₁.1.length = out₂.1.length ∧ Alike out₁.2 out₂.2)
      (g₁.transform direction piece₁) (g₂.transform direction piece₂) := by
  have hbegun := h.beginMessage
  refine Agree.ite (by rw [h.messageLength, hpiece]) rfl ⟨?_, ?_⟩
  · show (g₁.beginMessage.keystream.apply _ _ piece₁).1.length
      = (g₂.beginMessage.keystream.apply _ _ piece₂).1.length
    rw [Keystream.length_apply, Keystream.length_apply, hpiece]
  · exact ⟨hbegun.name, hbegun.aadLength,
      congrArg₂ _ hbegun.messageLength hpiece,
      hbegun.inMessage⟩

theorem tag (length : Nat) :
    Agree (fun tag₁ tag₂ => tag₁.length = tag₂.length) (g₁.tag length)
      (g₂.tag length) := by
  exact Agree.ite Iff.rfl rfl (length_take_toBytes ..)

end Gcm.Alike

/-- **Messages of one length**, under nonces of one length and with as
much associated data. Those bytes themselves are kept, and they may be
different ones. -/
structure Ccm.Message.Alike (m₁ m₂ : Message) : Prop where
  /-- The nonces are equally long. -/
  nonce : m₁.nonce.length = m₂.nonce.length
  /-- There is as much associated data. -/
  aad : m₁.aad.length = m₂.aad.length
  /-- The messages are equally long. -/
  plaintext : m₁.plaintext.length = m₂.plaintext.length

/-- **Streams in counter with CBC-MAC mode that have come equally far**,
with a message under way in both or in neither. -/
structure Ccm.Alike (c₁ c₂ : Ccm) : Prop where
  /-- The ciphers have one name. -/
  name : c₁.cipher.name = c₂.cipher.name
  /-- The tags have one length. -/
  tagLength : c₁.tagLength = c₂.tagLength
  /-- Both have a message, or neither. -/
  message? : Option.Rel Message.Alike c₁.message? c₂.message?

namespace Ccm.Alike

variable {c₁ c₂ : Ccm}

theorem reset (h : Alike c₁ c₂) {nonce₁ nonce₂ : Bytes}
    (hn : nonce₁.length = nonce₂.length) :
    Agree Alike (c₁.reset nonce₁) (c₂.reset nonce₂) := by
  refine Agree.ite (by rw [hn]) (congrArg StreamError.nonceLength hn) ?_
  exact ⟨h.name, h.tagLength, .some ⟨hn, rfl, rfl⟩⟩

theorem authenticate (h : Alike c₁ c₂) {data₁ data₂ : Bytes}
    (hdata : data₁.length = data₂.length) :
    Agree Alike (c₁.authenticate data₁) (c₂.authenticate data₂) := by
  unfold Ccm.authenticate
  obtain ⟨hname, htag, hmessage⟩ := h
  generalize c₁.message? = message₁ at hmessage
  generalize c₂.message? = message₂ at hmessage
  cases hmessage with
  | none => exact rfl
  | some hm =>
    refine Agree.ite (by rw [isEmpty_congr hm.plaintext])
      rfl ⟨hname, htag, .some ?_⟩
    refine ⟨hm.nonce, ?_, hm.plaintext⟩
    rw [List.length_append, List.length_append, hm.aad, hdata]

theorem transform (h : Alike c₁ c₂) (direction : Direction)
    {piece₁ piece₂ : Bytes} (hpiece : piece₁.length = piece₂.length) :
    Agree (fun out₁ out₂ => out₁.1.length = out₂.1.length ∧ Alike out₁.2 out₂.2)
      (c₁.transform direction piece₁) (c₂.transform direction piece₂) := by
  unfold Ccm.transform
  obtain ⟨hname, htag, hmessage⟩ := h
  generalize c₁.message? = message₁ at hmessage
  generalize c₂.message? = message₂ at hmessage
  cases hmessage with
  | none => exact rfl
  | @some m₁ m₂ hm =>
    have hlimit : maxMessageLength m₁.nonce = maxMessageLength m₂.nonce := by
      unfold maxMessageLength lengthWidth
      rw [hm.nonce]
    -- Either side of a piece has its length.
    have hresult :
      (m₁.keystream.apply c₁.cipher.encrypt (nextCounter m₁.nonce)
        piece₁).1.length
          = (m₂.keystream.apply c₂.cipher.encrypt (nextCounter m₂.nonce)
              piece₂).1.length := by
      rw [Keystream.length_apply, Keystream.length_apply, hpiece]
    refine Agree.ite (by rw [hlimit, hm.plaintext, hpiece]) rfl
      ⟨hresult, hname, htag, .some ⟨hm.nonce, hm.aad, ?_⟩⟩
    show (m₁.plaintext ++ _).length = (m₂.plaintext ++ _).length
    rw [List.length_append, List.length_append, hm.plaintext]
    cases direction with
    | encrypt => rw [hpiece]
    | decrypt => exact congrArg _ hresult

theorem tag (h : Alike c₁ c₂) (length : Nat) :
    Agree (fun tag₁ tag₂ => tag₁.length = tag₂.length) (c₁.tag length)
      (c₂.tag length) := by
  unfold Ccm.tag
  obtain ⟨-, htag, hmessage⟩ := h
  generalize c₁.message? = message₁ at hmessage
  generalize c₂.message? = message₂ at hmessage
  cases hmessage with
  | none => exact rfl
  | some hm =>
    exact Agree.ite (by rw [htag]) rfl (length_take_toBytes ..)

end Ccm.Alike

/-- **Streams that have come equally far**, in one mode: two streams of
different modes are never alike. -/
inductive Stream.Alike : Stream → Stream → Prop
  /-- In Galois/counter mode. -/
  | gcm {g₁ g₂ : Gcm} (h : g₁.Alike g₂) : Alike (.gcm g₁) (.gcm g₂)
  /-- In counter with CBC-MAC mode. -/
  | ccm {c₁ c₂ : Ccm} (h : c₁.Alike c₂) : Alike (.ccm c₁) (.ccm c₂)

namespace Stream.Alike

variable {s₁ s₂ : Stream}

theorem mode (h : Alike s₁ s₂) : s₁.mode = s₂.mode := by
  cases h <;> rfl

theorem algorithm (h : Alike s₁ s₂) : s₁.algorithm = s₂.algorithm := by
  cases h with
  | gcm h => exact congrArg (· ++ "-" ++ Mode.gcm.name) h.name
  | ccm h => exact congrArg (· ++ "-" ++ Mode.ccm.name) h.name

theorem tagLength? (h : Alike s₁ s₂) : s₁.tagLength? = s₂.tagLength? := by
  cases h with
  | gcm h => rfl
  | ccm h => exact congrArg some h.tagLength

theorem reset (h : Alike s₁ s₂) {nonce₁ nonce₂ : Bytes}
    (hn : nonce₁.length = nonce₂.length) :
    Agree Alike (s₁.reset nonce₁) (s₂.reset nonce₂) := by
  cases h with
  | gcm h => exact (h.reset hn).map .gcm
  | ccm h => exact (h.reset hn).map .ccm

theorem authenticate (h : Alike s₁ s₂) {data₁ data₂ : Bytes}
    (hdata : data₁.length = data₂.length) :
    Agree Alike (s₁.authenticate data₁) (s₂.authenticate data₂) := by
  cases h with
  | gcm h => exact (h.authenticate hdata).map .gcm
  | ccm h => exact (h.authenticate hdata).map .ccm

theorem transform (h : Alike s₁ s₂) (direction : Direction)
    {piece₁ piece₂ : Bytes} (hpiece : piece₁.length = piece₂.length) :
    Agree (fun out₁ out₂ => out₁.1.length = out₂.1.length ∧ Alike out₁.2 out₂.2)
      (s₁.transform direction piece₁) (s₂.transform direction piece₂) := by
  cases h with
  | gcm h => exact (h.transform direction hpiece).map fun hout =>
    ⟨hout.1, .gcm hout.2⟩
  | ccm h => exact (h.transform direction hpiece).map fun hout =>
    ⟨hout.1, .ccm hout.2⟩

theorem tag (h : Alike s₁ s₂) (length : Nat) :
    Agree (fun tag₁ tag₂ => tag₁.length = tag₂.length) (s₁.tag length)
      (s₂.tag length) := by
  cases h with
  | gcm h => exact Gcm.Alike.tag length
  | ccm h => exact h.tag length

/-- **Streams under keys of one length are alike** before their first
nonce, or there are none. -/
theorem ofKey (mode : Mode) (tagLength : Nat) {key₁ key₂ : Bytes}
    (hkey : key₁.length = key₂.length) :
    Agree Alike (Stream.ofKey mode key₁ tagLength)
      (Stream.ofKey mode key₂ tagLength) := by
  refine Agree.ite Iff.rfl rfl ?_
  unfold Aes.blockCipher?
  cases h₁ : Aes.Cipher.ofKey? key₁ with
  | none =>
    have h₂ : Aes.Cipher.ofKey? key₂ = none := by
      rw [← Option.not_isSome_iff_eq_none, Aes.Cipher.isSome_ofKey?, ← hkey,
        ← Aes.Cipher.isSome_ofKey?, h₁]
      exact Bool.false_ne_true
    rw [h₂]
    exact congrArg StreamError.keyLength hkey
  | some cipher₁ =>
    have hsome : (Aes.Cipher.ofKey? key₂).isSome := by
      rw [Aes.Cipher.isSome_ofKey?, ← hkey, ← Aes.Cipher.isSome_ofKey?, h₁]
      rfl
    obtain ⟨cipher₂, h₂⟩ := Option.isSome_iff_exists.mp hsome
    rw [h₂]
    -- The name of the cipher is that of the key size, and the key size that
    -- of the length.
    have hsize : cipher₁.size = cipher₂.size := Option.some.inj <| by
      rw [← Aes.Cipher.size_of_ofKey? h₁, ← Aes.Cipher.size_of_ofKey? h₂, hkey]
    have hname : s!"AES-{cipher₁.size.bits}" = s!"AES-{cipher₂.size.bits}" := by
      rw [hsize]
    cases mode with
    | gcm => exact .gcm ⟨hname, rfl, rfl, rfl⟩
    | ccm => exact .ccm ⟨hname, rfl, .none⟩

end Stream.Alike

/-! ## Sessions -/

/-- **Sessions that have come equally far.** It is what a step
preserves, and it fixes what an onlooker may see of a session. -/
structure Session.Alike (s₁ s₂ : Session) : Prop where
  /-- The streams have. -/
  stream : s₁.stream.Alike s₂.stream
  /-- The phases are the same. -/
  phase : s₁.phase = s₂.phase

namespace Session

/-- **The same call with byte strings of the same lengths.** The bytes
are free, also those of a buffer that is about to be written. -/
inductive Call.Alike : Call → Call → Prop
  /-- Two resets. -/
  | reset {nonce₁ nonce₂ aad₁ aad₂ : Bytes}
    (hnonce : nonce₁.length = nonce₂.length)
    (haad : aad₁.length = aad₂.length) :
    Alike (.reset nonce₁ aad₁) (.reset nonce₂ aad₂)
  /-- More associated data in both. -/
  | authenticate {data₁ data₂ : Bytes} (hdata : data₁.length = data₂.length) :
    Alike (.authenticate data₁) (.authenticate data₂)
  /-- Two transforms into another buffer. -/
  | transform (direction : Direction) {input₁ input₂ output₁ output₂ : Bytes}
    (hinput : input₁.length = input₂.length)
      (houtput : output₁.length = output₂.length) :
    Alike (.transform direction input₁ output₁)
      (.transform direction input₂ output₂)
  /-- Two transforms in place, of equally much. -/
  | transformInPlace (direction : Direction) {buffer₁ buffer₂ : Bytes}
    (length : Nat)
    (hbuffer : buffer₁.length = buffer₂.length) :
    Alike (.transformInPlace direction buffer₁ length)
      (.transformInPlace direction buffer₂ length)
  /-- Two tags. -/
  | tag {buffer₁ buffer₂ : Bytes} (hbuffer : buffer₁.length = buffer₂.length) :
    Alike (.tag buffer₁) (.tag buffer₂)
  /-- Two verifications. -/
  | verify {expected₁ expected₂ : Bytes}
    (hexpected : expected₁.length = expected₂.length) :
    Alike (.verify expected₁) (.verify expected₂)

/-- Whether a call compares tags, the one kind of call whose outcome
depends on the bytes. -/
def Call.isVerification : Call → Bool
  | verify _ => true
  | _ => false

/-- **A verdict**: the tag was compared, and was the message's or was
not. -/
def IsVerdict (outcome : Except Error Unit) : Prop :=
  outcome = .ok () ∨ outcome = .error .authenticationFailed

/-- **Two answers to a call that cannot be told apart**: the buffers are
equally long and the outcomes are the same, unless both are verdicts. -/
structure Call.AnsweredAlike (call : Call) (r₁ r₂ : Reply Error) : Prop where
  /-- The buffers are equally long. -/
  buffer : r₁.buffer.length = r₂.buffer.length
  /-- The outcomes are the same, or verdicts. -/
  outcome : r₁.outcome = r₂.outcome
    ∨ call.isVerification = true ∧ IsVerdict r₁.outcome ∧ IsVerdict r₂.outcome

/-- Two steps: answers that cannot be told apart, and sessions that have
come equally far, which is the condition for the next step. -/
def StepAlike (call : Call) (out₁ out₂ : Reply Error × Session) : Prop :=
  call.AnsweredAlike out₁.1 out₂.1 ∧ out₁.2.Alike out₂.2

namespace Alike

variable {s₁ s₂ : Session}

theorem mode (h : s₁.Alike s₂) : s₁.mode = s₂.mode := h.stream.mode

theorem tagLength (h : s₁.Alike s₂) : s₁.tagLength = s₂.tagLength :=
  congrArg (·.getD Gcm.maxTagLength) h.stream.tagLength?

/-- They show the same text, which is made of the names, the tag length
and the phase. Nothing that a session has been given gets into it. -/
theorem describe (h : s₁.Alike s₂) : s₁.describe = s₂.describe := by
  have halgorithm : s₁.algorithm = s₂.algorithm := h.stream.algorithm
  unfold Session.describe
  rw [halgorithm, h.tagLength, h.phase]

theorem ofKey (mode : Mode) (tagLength : Nat) {key₁ key₂ : Bytes}
    (hkey : key₁.length = key₂.length) :
    Agree Alike (Session.ofKey mode key₁ tagLength)
      (Session.ofKey mode key₂ tagLength) := by
  have hstream := Stream.Alike.ofKey mode tagLength hkey
  unfold Session.ofKey
  rw [hkey]
  split
  · exact rfl
  · obtain ⟨e, h₁, h₂⟩ | ⟨stream₁, stream₂, h₁, h₂, h⟩ :=
      hstream.cases <;> rw [h₁, h₂]
    · cases e <;> exact rfl
    · exact ⟨h, rfl⟩

theorem startMessage {stream₁ stream₂ : Stream} (h : stream₁.Alike stream₂)
    {nonce₁ nonce₂ aad₁ aad₂ : Bytes} (hnonce : nonce₁.length = nonce₂.length)
    (haad : aad₁.length = aad₂.length) :
    Agree Stream.Alike (Session.startMessage stream₁ nonce₁ aad₁)
      (Session.startMessage stream₂ nonce₂ aad₂) := by
  refine (h.reset hnonce).bind fun {opened₁ opened₂} hopened => ?_
  exact Agree.ite (by rw [hopened.mode, isEmpty_congr haad])
    (hopened.authenticate haad) hopened

theorem step_reset (h : s₁.Alike s₂) {nonce₁ nonce₂ aad₁ aad₂ : Bytes}
    (hnonce : nonce₁.length = nonce₂.length)
    (haad : aad₁.length = aad₂.length) :
    StepAlike (.reset nonce₁ aad₁) (s₁.step (.reset nonce₁ aad₁))
      (s₂.step (.reset nonce₂ aad₂)) := by
  have hstart := startMessage h.stream hnonce haad
  simp only [Session.step, Session.reset]
  obtain ⟨e, h₁, h₂⟩ | ⟨stream₁, stream₂, h₁, h₂, hs⟩ :=
    hstart.cases <;> rw [h₁, h₂]
  · exact ⟨⟨rfl, .inl rfl⟩, h.stream, rfl⟩
  · exact ⟨⟨rfl, .inl rfl⟩, hs, rfl⟩

/-- A refusal that leaves both sessions as they were. Most refusals are
of this kind; those of the stream that fault a session are handled where
they occur. -/
theorem refused (h : s₁.Alike s₂) (call : Call) (e : Error)
    {buffer₁ buffer₂ : Bytes} (hbuffer : buffer₁.length = buffer₂.length) :
    StepAlike call (⟨.error e, buffer₁⟩, s₁) (⟨.error e, buffer₂⟩, s₂) :=
  ⟨⟨hbuffer, .inl rfl⟩, h⟩

theorem step_authenticate (h : s₁.Alike s₂) {data₁ data₂ : Bytes}
    (hdata : data₁.length = data₂.length) :
    StepAlike (.authenticate data₁) (s₁.step (.authenticate data₁))
      (s₂.step (.authenticate data₂)) := by
  simp only [Session.step, Session.authenticate]
  rw [h.mode, ← h.phase, isEmpty_congr hdata]
  split
  · exact h.refused _ _ rfl
  · cases hphase : s₁.phase with
    | reset =>
      dsimp only
      split
      · exact ⟨⟨rfl, .inl rfl⟩, h⟩
      · have hs := h.stream.authenticate hdata
        obtain ⟨e, h₁, h₂⟩ | ⟨stream₁, stream₂, h₁, h₂, hs⟩ :=
          hs.cases <;> rw [h₁, h₂]
        · exact h.refused _ _ rfl
        · exact ⟨⟨rfl, .inl rfl⟩, hs, rfl⟩
    | constructed | faulted | transforming | tagExtracted =>
      exact h.refused _ _ rfl

theorem transformStart (h : s₁.Alike s₂) (call : Call) (direction : Direction)
    {piece₁ piece₂ rest₁ rest₂ : Bytes} (hpiece : piece₁.length = piece₂.length)
    (hrest : rest₁.length = rest₂.length) :
    StepAlike call (s₁.transformStart direction piece₁ rest₁)
      (s₂.transformStart direction piece₂ rest₂) := by
  have hs := h.stream.transform direction hpiece
  unfold Session.transformStart
  obtain ⟨e, h₁, h₂⟩ | ⟨out₁, out₂, h₁, h₂, hs⟩ := hs.cases <;> rw [h₁, h₂]
  · refine ⟨⟨?_, .inl rfl⟩, h.stream, rfl⟩
    rw [List.length_append, List.length_append, hpiece, hrest]
  · refine ⟨⟨?_, .inl rfl⟩, hs.2, rfl⟩
    rw [List.length_append, List.length_append, hs.1, hrest]

/-- **Both forms of a transform** look at the phase and at two lengths:
that of the task and that of the buffer. -/
theorem step_task (h : s₁.Alike s₂) {call₁ call₂ : Call} {task₁ task₂ : Task}
    (hc₁ : call₁.task? = some task₁) (hc₂ : call₂.task? = some task₂)
    (hdirection : task₁.direction = task₂.direction)
    (hlength : task₁.length = task₂.length)
    (hpiece : task₁.piece.length = task₂.piece.length)
    (hbuffer : task₁.buffer.length = task₂.buffer.length) :
    StepAlike call₁ (s₁.step call₁) (s₂.step call₂) := by
  have hobjection : s₁.objection? task₁.length task₁.buffer.length
      = s₂.objection? task₂.length task₂.buffer.length := by
    unfold objection?
    rw [h.phase, hlength, hbuffer]
  rw [Session.step_task s₁ hc₁, Session.step_task s₂ hc₂, hobjection,
    hdirection]
  cases s₂.objection? task₂.length task₂.buffer.length with
  | some e => exact h.refused _ _ hbuffer
  | none =>
    refine h.transformStart _ _ hpiece ?_
    rw [List.length_drop, List.length_drop, hlength, hbuffer]

/-- **Tags of one length** are granted or refused alike. Only the bytes
of the tag are different, and nothing later looks at them. -/
theorem tag (h : s₁.Alike s₂) (call : Call) (n : Nat) :
    (s₁.tag n).1.outcome = (s₂.tag n).1.outcome
      ∧ StepAlike call (s₁.tag n) (s₂.tag n) := by
  have htakes : s₁.takesTagLength n = s₂.takesTagLength n := by
    unfold takesTagLength
    rw [h.mode, h.tagLength]
  unfold Session.tag
  rw [htakes, ← h.phase]
  cases hphase : s₁.phase with
  | constructed | faulted => exact ⟨rfl, h.refused _ _ rfl⟩
  | reset | transforming | tagExtracted =>
    dsimp only
    split
    · exact ⟨rfl, h.refused _ _ rfl⟩
    · have hs := h.stream.tag n
      obtain ⟨e, h₁, h₂⟩ | ⟨tag₁, tag₂, h₁, h₂, hs⟩ := hs.cases <;> rw [h₁, h₂]
      · exact ⟨rfl, ⟨rfl, .inl rfl⟩, h.stream, rfl⟩
      · exact ⟨rfl, ⟨hs, .inl rfl⟩, h.stream, rfl⟩

/-- **A verification is a tag**, and then a verdict that the session
does not remember. -/
theorem step_verify (h : s₁.Alike s₂) {expected₁ expected₂ : Bytes}
    (hexpected : expected₁.length = expected₂.length) :
    StepAlike (.verify expected₁) (s₁.step (.verify expected₁))
      (s₂.step (.verify expected₂)) := by
  rw [Session.step_verify, Session.step_verify, ← hexpected]
  obtain ⟨houtcome, -, hafter⟩ := h.tag (.verify expected₁) expected₁.length
  refine ⟨⟨rfl, ?_⟩, hafter⟩
  rw [houtcome]
  cases (s₂.tag expected₁.length).1.outcome with
  | error e => exact .inl rfl
  | ok _ =>
    have hverdict {p : Prop} [Decidable p] :
        IsVerdict (if p then .ok () else .error .authenticationFailed) := by
      split
      · exact .inl rfl
      · exact .inr rfl
    exact .inr ⟨rfl, hverdict, hverdict⟩

/-- **One step of both.** The cases are those of the two calls, which
are of one kind, and each operation has its lemma above: a reset,
associated data, a transform in either form, a tag, a verification. -/
theorem step (h : s₁.Alike s₂) {call₁ call₂ : Call}
    (hcall : call₁.Alike call₂) :
    StepAlike call₁ (s₁.step call₁) (s₂.step call₂) := by
  cases hcall with
  | reset hnonce haad => exact h.step_reset hnonce haad
  | authenticate hdata => exact h.step_authenticate hdata
  | transform direction hinput houtput =>
    exact h.step_task rfl rfl rfl hinput hinput houtput
  | transformInPlace direction length hbuffer =>
    refine h.step_task rfl rfl rfl rfl ?_ hbuffer
    rw [List.length_take, List.length_take, hbuffer]
  | @tag buffer₁ buffer₂ hbuffer =>
    show StepAlike _ (s₁.tag buffer₁.length) (s₂.tag buffer₂.length)
    rw [← hbuffer]
    exact (h.tag _ _).2
  | verify hexpected => exact h.step_verify hexpected

/-- Two runs with the same calls, byte strings of the same lengths in
them, leave the sessions as alike as they were. -/
theorem after (h : s₁.Alike s₂) {calls₁ calls₂ : List Call}
    (hcalls : List.Forall₂ Call.Alike calls₁ calls₂) :
    (Aead.after Session.step s₁ calls₁).Alike
      (Aead.after Session.step s₂ calls₂) := by
  induction hcalls generalizing s₁ s₂ with
  | nil => exact h
  | cons hcall _ ih => exact ih (h.step hcall).2

end Alike

/-- **The course of a session depends on lengths only.** Under keys of
one length two sessions are made, or neither is and for the same cause.
After any two histories of the same calls with byte strings of the same
lengths they stand in the same phase and show the same text, and the
next call, if it is the same again, is answered alike by both: with the
same outcome, unless it compares tags and both have done so. -/
theorem course_depends_on_lengths (mode : Mode) (tagLength : Nat)
    (key₁ key₂ : Bytes) (hkey : key₁.length = key₂.length) :
    Agree (fun s₁ s₂ => ∀ past₁ past₂ : List Call,
        List.Forall₂ Call.Alike past₁ past₂ →
        (s₁.run past₁).2.phase = (s₂.run past₂).2.phase
          ∧ (s₁.run past₁).2.describe = (s₂.run past₂).2.describe
          ∧ ∀ call₁ call₂ : Call, call₁.Alike call₂ →
              call₁.AnsweredAlike ((s₁.run past₁).2.step call₁).1
                ((s₂.run past₂).2.step call₂).1)
      (ofKey mode key₁ tagLength) (ofKey mode key₂ tagLength) := by
  have hmade := Alike.ofKey mode tagLength hkey
  obtain ⟨e, h₁, h₂⟩ | ⟨s₁, s₂, h₁, h₂, hs⟩ := hmade.cases <;> rw [h₁, h₂]
  · exact rfl
  · intro past₁ past₂ hpast
    rw [run_eq, run_eq]
    have hafter := hs.after hpast
    exact ⟨hafter.phase, hafter.describe,
      fun call₁ call₂ hcall => (hafter.step hcall).1⟩

/-- Two keys, and in each session a verification: of the tag in the
first, of something else in the second. The verdicts differ, and nothing
after them. -/
theorem course_depends_on_lengths_past_verdicts :
    ∃ s₁ s₂ tag wrong, ofKey .gcm (Bytes.zeros 16) 16 = .ok s₁
      ∧ ofKey .gcm (List.replicate 16 1) 16 = .ok s₂
      ∧ let past₁ := [Call.reset [1] [], .verify tag]
        let past₂ := [Call.reset [2] [], .verify wrong]
        (s₁.run past₁).1.map (·.outcome) = [.ok (), .ok ()]
          ∧ (s₂.run past₂).1.map (·.outcome)
            = [.ok (), .error .authenticationFailed]
          ∧ (s₁.run past₁).2.describe = (s₂.run past₂).2.describe
          ∧ (Call.authenticate [3]).AnsweredAlike
            ((s₁.run past₁).2.step (.authenticate [3])).1
              ((s₂.run past₂).2.step (.authenticate [4])).1 := by
  have hkey₁ : (Bytes.zeros 16).length = 16 := rfl
  have hkey₂ : (List.replicate 16 1 : Bytes).length = 16 := rfl
  have hbegun₁ : Mode.gcm.openingRefusal? [1] ([] : Bytes).length = none := rfl
  have hbegun₂ : Mode.gcm.openingRefusal? [2] ([] : Bytes).length = none := rfl
  obtain ⟨cipher₁, s₁, hs₁, hkeyed₁⟩ := exists_ofKey .gcm 16 (.inl hkey₁) rfl
  obtain ⟨cipher₂, s₂, hs₂, hkeyed₂⟩ := exists_ofKey .gcm 16 (.inl hkey₂) rfl
  obtain ⟨stream₁, hreset₁, hheld₁⟩ := step_reset_granted hkeyed₁ hbegun₁
  obtain ⟨stream₂, hreset₂, hheld₂⟩ := step_reset_granted hkeyed₂ hbegun₂
  have htakes : Mode.gcm.TakesTag 16 16 := ⟨by decide, by decide⟩
  let right (cipher : BlockCipher) (nonce : Bytes) : Block :=
    ((Transcript.start nonce).authenticate []).tag .gcm cipher.encrypt 16
  obtain ⟨wrong, hne⟩ : ∃ wrong : Block, right cipher₂ [2] ≠ wrong := by
    by_cases hzero : right cipher₂ [2] = Block.zero
    · exact ⟨Vector.replicate 16 1, hzero ▸ by decide⟩
    · exact ⟨Block.zero, hzero⟩
  have hright := hheld₁.step_verify_whole htakes (right cipher₁ [1])
  have hwrong := hheld₂.step_verify_whole htakes wrong
  rw [if_pos rfl] at hright
  rw [if_neg hne] at hwrong
  have hcourse :=
    course_depends_on_lengths .gcm 16 (Bytes.zeros 16) (List.replicate 16 1) rfl
  rw [hs₁, hs₂] at hcourse
  obtain ⟨-, hdescribe, hnext⟩ := hcourse
    [.reset [1] [], .verify (right cipher₁ [1]).toBytes]
    [.reset [2] [], .verify wrong.toBytes]
    (.cons (.reset rfl rfl)
      (.cons (.verify (by rw [Block.length_toBytes, Block.length_toBytes]))
        .nil))
  refine ⟨s₁, s₂, _, wrong.toBytes, hs₁, hs₂, ?_, ?_, hdescribe,
    hnext _ _ (.authenticate rfl)⟩
  · simp only [run, hreset₁, hright, List.map]
  · simp only [run, hreset₂, hwrong, List.map]

end Session

end Strongbox.Aead
