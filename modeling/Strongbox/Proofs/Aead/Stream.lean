import Strongbox.Proofs.Aead.Ccm
import Strongbox.Proofs.Aead.Gcm

/-!
# What a stream holds

The two modes have the same calls, and what has been said of each says
the same of both: a stream that belongs to a key (`Stream.Keyed`) is
brought by an accepted nonce into a state that depends on nothing
before, and from there on holds the transcript of what it is given
(`Stream.Holds`).

`Transcript.answer` is how a stream must answer, said without its state.
`Holds.step` is that it does, one call at a time, and `Holds.record`
that it goes on to: a property of records that every such answer keeps
is a property of every record. Both hold of any calls in any order,
refused ones included; only a new nonce ends the message.

* `Keyed.step_reset` is the other half: a nonce that is taken puts every
  stream of a key into one state, so that nothing before it matters.
  `Keyed.step` and `Keyed.after` are what it needs, that no call changes
  the key.
* `Keyed`, `opened` and `Holds` are taken together from the two modes,
  one constructor for each, and the operation lemmas are those of the
  modes under `Settles.map`. What distinguishes the modes from here on
  is in the transcript's refusals and in the functions `crypt` and
  `tag`.
* `exists_ofKey` starts the induction: a stream is made of every key of
  the three lengths, for every tag length the mode accepts.
-/

namespace Strongbox.Aead

/-! ## The answers that a transcript asks for -/

/-- The reply that leaves a buffer as it was, with a refusal, or
replaces what is in it. A call without a buffer has the empty one in
both places. -/
def Reply.settled (refusal? : Option StreamError) (kept written : Bytes) :
    Reply StreamError :=
  match refusal? with
  | some e => ⟨.error e, kept⟩
  | none => ⟨.ok (), written⟩

/-- **How a call must be answered** when a message has come to a
transcript. The state of the stream does not occur: what is refused and
what is written follow from what has been given since the nonce. -/
def Transcript.answer (mode : Mode) (cipher : Block → Block) (tagLength : Nat)
    (t : Transcript) :
    Stream.Call → Reply StreamError
  | .reset nonce => Reply.settled (mode.nonceRefusal? nonce) [] []
  | .authenticate data => Reply.settled (t.aadRefusal? mode data.length) [] []
  | .transform _ piece =>
    Reply.settled (t.messageRefusal? mode piece.length) piece
      (t.crypt mode cipher piece)
  | .tag buffer =>
    Reply.settled (tagRefusal? mode tagLength buffer.length) buffer
      ((t.tag mode cipher tagLength).toBytes.take buffer.length)

/-- A key of one of the three lengths has a cipher, which AES of that
key length is. -/
theorem exists_blockCipher {key : Bytes}
    (h : key.length = 16 ∨ key.length = 24 ∨ key.length = 32) :
    ∃ cipher, Aes.blockCipher? key = some cipher := by
  have hsome : (Aes.Cipher.ofKey? key).isSome := by
    rw [Aes.Cipher.isSome_ofKey?]
    rcases h with h | h | h <;> rw [h] <;> rfl
  obtain ⟨cipher, hcipher⟩ := Option.isSome_iff_exists.mp hsome
  exact ⟨_, congrArg (Option.map _) hcipher⟩

namespace Stream

/-- Whether a call goes on with the message, and does not begin another.
Every call but a reset does, whether it is granted or refused. -/
def Call.continues : Call → Bool
  | reset _ => false
  | _ => true

/-- **The stream belongs to a key**, whatever it has been told. It is
what holds before the first nonce, across all messages and after any
refusal. -/
inductive Keyed (cipher : BlockCipher) (tagLength : Nat) : Mode → Stream → Prop
  /-- In Galois/counter mode, where the tag length is free. -/
  | gcm {g : Gcm} (h : Gcm.Keyed cipher g) :
    Keyed cipher tagLength .gcm (.gcm g)
  /-- In counter with CBC-MAC mode. -/
  | ccm {c : Ccm} (h : Ccm.Keyed cipher tagLength c) :
    Keyed cipher tagLength .ccm (.ccm c)

/-- **The stream after a nonce**, whatever was before it. A function of
the key, the tag length and the nonce: this is the statement that
nothing is carried over from one message to the next. -/
def opened (cipher : BlockCipher) (tagLength : Nat) (nonce : Bytes) :
    Mode → Stream
  | .gcm => gcm (Gcm.opened cipher nonce)
  | .ccm => ccm (Ccm.opened cipher tagLength nonce)

/-- **What a stream holds** of a message that has come to a transcript,
in the sense of its mode. -/
inductive Holds (cipher : BlockCipher) (tagLength : Nat) :
    Mode → Transcript → Stream → Prop
  /-- In Galois/counter mode. -/
  | gcm {t : Transcript} {g : Gcm} (h : Gcm.Holds cipher t g) :
    Holds cipher tagLength .gcm t (.gcm g)
  /-- In counter with CBC-MAC mode. -/
  | ccm {t : Transcript} {c : Ccm} (h : Ccm.Holds cipher tagLength t c) :
    Holds cipher tagLength .ccm t (.ccm c)

variable {cipher : BlockCipher} {tagLength : Nat} {mode : Mode} {t : Transcript}
  {s : Stream}

/-- A stream made of a cipher belongs to it, before any nonce. In
Galois/counter mode the hash key is encrypted on the way, which is all
that is to be checked. -/
theorem Keyed.ofCipher (mode : Mode) (cipher : BlockCipher) (tagLength : Nat) :
    Keyed cipher tagLength mode (ofCipher mode cipher tagLength) :=
  match mode with
  | .gcm => gcm ⟨rfl, rfl⟩
  | .ccm => ccm ⟨rfl, rfl⟩

/-- **A stream is made of every key and tag length that fit**, and
belongs to them. Nothing in the constructor can fail but the two checks
that are assumed to pass. -/
theorem exists_ofKey (mode : Mode) (tagLength : Nat) {key : Bytes}
    (hkey : key.length = 16 ∨ key.length = 24 ∨ key.length = 32)
    (htag : acceptsTagLength mode tagLength = true) :
    ∃ cipher fresh, Aes.blockCipher? key = some cipher
      ∧ ofKey mode key tagLength = .ok fresh
        ∧ Keyed cipher tagLength mode fresh := by
  obtain ⟨cipher, hcipher⟩ := exists_blockCipher hkey
  refine ⟨cipher, _, hcipher, ?_, Keyed.ofCipher mode cipher tagLength⟩
  unfold ofKey
  rw [htag, hcipher]
  rfl

/-- The mode of a stream is the one it is keyed in, so that nothing that
is done with a stream can take it from one mode to the other. -/
theorem Keyed.mode_eq (h : Keyed cipher tagLength mode s) : s.mode = mode := by
  cases h <;> rfl

/-- The cipher of a stream is the one it is keyed with, whichever of the
two modes it is found in. -/
theorem Keyed.cipher_eq (h : Keyed cipher tagLength mode s) :
    s.cipher = cipher := by
  cases h with
  | gcm h => exact h.cipher_eq
  | ccm h => exact h.cipher_eq

/-- A stream that holds a message belongs to its key: what is said of
all streams of a key is said of it. -/
theorem Holds.keyed (h : Holds cipher tagLength mode t s) :
    Keyed cipher tagLength mode s := by
  cases h with
  | gcm h => exact .gcm h.keyed
  | ccm h => exact .ccm h.keyed

/-- The transcript that a stream holds is sound, and hence within the
limits of the mode. -/
theorem Holds.sound (h : Holds cipher tagLength mode t s) :
    t.Sound mode cipher.encrypt := by
  cases h with
  | gcm h => exact h.sound
  | ccm h => exact h.sound

/-! ## One operation -/

/-- **A reset forgets all but the key.** It is refused for a nonce that
the mode does not take, and otherwise its result does not depend on the
stream it is applied to. -/
theorem Keyed.reset (h : Keyed cipher tagLength mode s) (nonce : Bytes) :
    Settles (mode.nonceRefusal? nonce) (· = opened cipher tagLength nonce mode)
      (s.reset nonce) := by
  cases h with
  | gcm h =>
    exact (h.reset nonce).map Stream.gcm fun _ he => congrArg Stream.gcm he
  | ccm h =>
    exact (h.reset nonce).map Stream.ccm fun _ he => congrArg Stream.ccm he

/-- After a nonce nothing has been given: the stream holds the message
of the empty transcript. -/
theorem Holds.opened {nonce : Bytes} (h : mode.TakesNonce nonce) :
    Holds cipher tagLength mode (Transcript.start nonce)
      (opened cipher tagLength nonce mode) :=
  match mode with
  | .gcm => gcm (Gcm.Holds.opened h)
  | .ccm => ccm (Ccm.Holds.opened h)

/-- **More associated data** is refused as the transcript says, or added
to it. -/
theorem Holds.authenticate (h : Holds cipher tagLength mode t s)
    (data : Bytes) :
    Settles (t.aadRefusal? mode data.length)
      (Holds cipher tagLength mode (t.authenticate data))
      (s.authenticate data) := by
  cases h with
  | gcm h => exact (h.authenticate data).map Stream.gcm fun _ h' => .gcm h'
  | ccm h => exact (h.authenticate data).map Stream.ccm fun _ h' => .ccm h'

/-- **The next piece of the message** is refused as the transcript says,
or comes out as the transcript says and is added to it, on the sides
that the direction gives to piece and result. -/
theorem Holds.transform (h : Holds cipher tagLength mode t s)
    (direction : Direction) (piece : Bytes) :
    Settles (t.messageRefusal? mode piece.length)
      (fun out => out.1 = t.crypt mode cipher.encrypt piece
        ∧ Holds cipher tagLength mode
            (t.transform direction piece (t.crypt mode cipher.encrypt piece))
              out.2)
      (s.transform direction piece) := by
  cases h with
  | gcm h =>
    exact (h.transform direction piece).map
      (fun out => (out.1, Stream.gcm out.2))
      fun _ h' => ⟨h'.1, .gcm h'.2⟩
  | ccm h =>
    exact (h.transform direction piece).map
      (fun out => (out.1, Stream.ccm out.2))
      fun _ h' => ⟨h'.1, .ccm h'.2⟩

/-- **The tag of the message so far** is that of the transcript, cut to
the length asked for, or refused for that length. -/
theorem Holds.tag (h : Holds cipher tagLength mode t s) (n : Nat) :
    Settles (Transcript.tagRefusal? mode tagLength n)
      (· = (t.tag mode cipher.encrypt tagLength).toBytes.take n) (s.tag n) := by
  cases h with
  | gcm h => exact h.tag tagLength n
  | ccm h => exact h.tag n

/-! ## One call -/

/-- Associated data that is taken in leaves the key alone. Nothing is
assumed of the message, which need not be under way. -/
theorem Keyed.of_authenticate (h : Keyed cipher tagLength mode s) {data : Bytes}
    {s' : Stream} (hs : s.authenticate data = .ok s') :
    Keyed cipher tagLength mode s' := by
  cases h with
  | @gcm g h =>
    obtain ⟨g', hg, rfl⟩ := exists_of_map_eq_ok hs
    exact .gcm (h.of_authenticate hg)
  | @ccm c h =>
    obtain ⟨c', hc, rfl⟩ := exists_of_map_eq_ok hs
    exact .ccm (h.of_authenticate hc)

/-- A piece that is transformed leaves the key alone, under the same
weak assumption. -/
theorem Keyed.of_transform (h : Keyed cipher tagLength mode s)
    {direction : Direction} {piece : Bytes} {out : Bytes × Stream}
    (hs : s.transform direction piece = .ok out) :
    Keyed cipher tagLength mode out.2 := by
  cases h with
  | @gcm g h =>
    obtain ⟨out', hg, rfl⟩ := exists_of_map_eq_ok hs
    exact .gcm (h.of_transform hg)
  | @ccm c h =>
    obtain ⟨out', hc, rfl⟩ := exists_of_map_eq_ok hs
    exact .ccm (h.of_transform hc)

/-- **Nothing before a nonce is left of after it**: a stream that takes
a nonce is in one state, whichever it was in. -/
theorem Keyed.step_reset (h : Keyed cipher tagLength mode s) {nonce : Bytes}
    (hn : mode.TakesNonce nonce) :
    s.step (.reset nonce)
      = (⟨.ok (), []⟩, opened cipher tagLength nonce mode) := by
  have hreset := h.reset nonce
  rw [show mode.nonceRefusal? nonce = none from if_pos hn] at hreset
  obtain ⟨s', hs, rfl⟩ := hreset
  unfold Stream.step
  simp only [hs]

/-- A stream that refuses a nonce is left as it was, in the middle of a
message or not, and the refusal reports the length of the nonce. -/
theorem Keyed.step_reset_refused (h : Keyed cipher tagLength mode s)
    {nonce : Bytes} (hn : ¬mode.TakesNonce nonce) :
    s.step (.reset nonce) = (⟨.error (.nonceLength nonce.length), []⟩, s) := by
  have hreset := h.reset nonce
  rw [show mode.nonceRefusal? nonce = some _ from if_neg hn] at hreset
  unfold Stream.step
  simp only [show s.reset nonce = .error _ from hreset]

/-- **No call changes the key**, not even a reset. The cases are the
calls, each granted or refused. -/
theorem Keyed.step (h : Keyed cipher tagLength mode s) (call : Call) :
    Keyed cipher tagLength mode (s.step call).2 := by
  cases call with
  | reset nonce =>
    by_cases hn : mode.TakesNonce nonce
    · rw [h.step_reset hn]
      exact (Holds.opened hn).keyed
    · rw [h.step_reset_refused hn]
      exact h
  | authenticate data =>
    unfold Stream.step
    cases hs : s.authenticate data with
    | error e => simpa only [hs] using h
    | ok s' => simpa only [hs] using h.of_authenticate hs
  | transform direction piece =>
    unfold Stream.step
    cases hs : s.transform direction piece with
    | error e => simpa only [hs] using h
    | ok out => simpa only [hs] using h.of_transform hs
  | tag buffer =>
    unfold Stream.step
    cases hs : s.tag buffer.length with
    | error e => simpa only [hs] using h
    | ok tag => simpa only [hs] using h

/-- No history changes the key: the induction over the calls, with
`Keyed.step` at each. -/
theorem Keyed.after (h : Keyed cipher tagLength mode s) (calls : List Call) :
    Keyed cipher tagLength mode (after Stream.step s calls) := by
  induction calls generalizing s with
  | nil => exact h
  | cons call calls ih => exact ih (h.step call)

/-- **A call is answered as the transcript asks**, and what was given in
it is held. This is the step of every induction over calls: the
transcript is extended by the exchange as it took place, which a refused
call leaves as it was. -/
theorem Holds.step (h : Holds cipher tagLength mode t s) {call : Call}
    (hc : call.continues = true) :
    (s.step call).1 = t.answer mode cipher.encrypt tagLength call
      ∧ Holds cipher tagLength mode (t.extend ⟨call, (s.step call).1⟩)
        (s.step call).2 := by
  unfold Stream.step
  cases call with
  | reset nonce => exact Bool.noConfusion hc
  | authenticate data =>
    have hs := h.authenticate data
    unfold Transcript.answer
    cases hr : t.aadRefusal? mode data.length with
    | some e =>
      rw [hr] at hs
      simp only [show s.authenticate data = .error e from hs,
        Transcript.extend_error, hr]
      exact ⟨rfl, h⟩
    | none =>
      rw [hr] at hs
      obtain ⟨s', hs, h'⟩ := hs
      simp only [hs, Transcript.extend_authenticate, hr]
      exact ⟨rfl, h'⟩
  | transform direction piece =>
    have hs := h.transform direction piece
    unfold Transcript.answer
    cases hr : t.messageRefusal? mode piece.length with
    | some e =>
      rw [hr] at hs
      simp only [show s.transform direction piece = .error e from hs,
        Transcript.extend_error, hr]
      exact ⟨rfl, h⟩
    | none =>
      rw [hr] at hs
      obtain ⟨out, hs, hout, h'⟩ := hs
      simp only [hs, hout, Transcript.extend_transform, hr]
      exact ⟨rfl, h'⟩
  | tag buffer =>
    have hs := h.tag buffer.length
    unfold Transcript.answer
    cases hr : Transcript.tagRefusal? mode tagLength buffer.length with
    | some e =>
      rw [hr] at hs
      simp only [show s.tag buffer.length = .error e from hs,
        Transcript.extend_tag, hr]
      exact ⟨rfl, h⟩
    | none =>
      rw [hr] at hs
      obtain ⟨tag, hs, rfl⟩ := hs
      simp only [hs, Transcript.extend_tag, hr]
      exact ⟨rfl, h⟩

/-! ## Histories -/

/-- **A property of records that every answer keeps** holds of what a
record grows into, and the stream holds its transcript. The property is
one of exchanges only; the stream serves to show that the answers are
those the transcript asks for. -/
theorem Holds.record {nonce : Bytes}
    (P : List (Exchange Call StreamError) → Prop)
    (hP : ∀ (done : List (Exchange Call StreamError)) (call : Call), P done
        → P (done ++ [⟨call,
          (Transcript.ofRecord nonce done).answer mode cipher.encrypt tagLength
          call⟩]))
    (done : List (Exchange Call StreamError)) (hdone : P done)
    (h : Holds cipher tagLength mode (Transcript.ofRecord nonce done) s)
    (calls : List Call) (hc : ∀ call ∈ calls, call.continues = true) :
    P (done ++ record Stream.step s calls)
      ∧ Holds cipher tagLength mode
        (Transcript.ofRecord nonce (done ++ record Stream.step s calls))
          (Aead.after Stream.step s calls) := by
  induction calls generalizing done s with
  | nil => simpa using ⟨hdone, h⟩
  | cons call calls ih =>
    obtain ⟨hreply, hnext⟩ := h.step (hc call (List.mem_cons_self ..))
    rw [← Transcript.ofRecord_push] at hnext
    have hgrown := hP done call hdone
    rw [← hreply] at hgrown
    have hrest :=
      ih _ hgrown hnext (fun c hm => hc c (List.mem_cons_of_mem _ hm))
    rw [List.append_assoc] at hrest
    exact hrest

end Stream

end Strongbox.Aead
