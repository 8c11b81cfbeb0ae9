import Strongbox.Proofs.Aead.Stream

/-!
# What a session holds

A session in the middle of a message holds the transcript of it, through
its stream (`Session.Holds`). The protocol adds nothing to the
arithmetic: where the phase lets a call through, it is the transcript
that grants or refuses it, and the answer is the stream's.

Both forms of a transform are one `Task`, a piece of a message that
stands at the start of what will be the written buffer;
`Session.step_task` is the only place where the two are told apart.

* `Session.objection?` is what the protocol can hold against a
  transform; `objection?_eq_none_iff` and `objection?_cases` say when it
  does and what the objection then is.
* `settles_startMessage` says what a reset comes to: a nonce, and the
  associated data that comes with it, both judged by the transcript.
  After it, `step_reset_granted` and `step_reset_refused`.
* `Holds.step_authenticate_granted`, `Holds.transformStart_granted`,
  `Holds.tag_eq` and their refused counterparts give reply and next
  session of each call in the middle of a message, as equations: the
  inductions over calls rewrite with them.
* `step_verify` reduces a verification to a tag. It is the only call
  whose answer depends on what the tag is and not on its length alone.
-/

namespace Strongbox.Aead

namespace Phase

/-- Whether a message is under way: a nonce has been taken, and no
failure since. -/
def inMessage : Phase → Bool
  | constructed | faulted => false
  | reset | transforming | tagExtracted => true

/-- Whether a transform may come: in a message of which no tag has been
extracted. -/
def takesTransform : Phase → Bool
  | reset | transforming => true
  | constructed | tagExtracted | faulted => false

/-- A transform may come only in a message. The converse fails once a
tag has been extracted. -/
theorem inMessage_of_takesTransform {p : Phase} (h : p.takesTransform = true) :
    p.inMessage = true := by
  cases p <;> first | rfl | exact Bool.noConfusion h

end Phase

/-- **Why a message is not begun**: for its nonce, or for the associated
data that comes with it. The nonce is looked at first, so that its
refusal is the one reported when both are wrong. -/
def Mode.openingRefusal? (mode : Mode) (nonce : Bytes) (n : Nat) :
    Option StreamError :=
  (mode.nonceRefusal? nonce).or ((Transcript.start nonce).aadRefusal? mode n)

/-! ## Tasks -/

/-- **What a transform is asked to do**, in either of its forms. The
length is the one claimed by the caller, and the piece may be shorter
than it when the buffer is: such a task does not fit and is refused. -/
structure Session.Task where
  /-- Which way. -/
  direction : Direction
  /-- How many bytes are to be transformed. -/
  length : Nat
  /-- Those bytes. -/
  piece : Bytes
  /-- The buffer that is written. -/
  buffer : Bytes

namespace Session

/-- The task of a call, if it is a transform of one form or the other.
With two buffers the piece is the whole input; in place it is the
beginning of the one buffer. -/
def Call.task? : Call → Option Task
  | transform direction input output =>
    some ⟨direction, input.length, input, output⟩
  | transformInPlace direction buffer length =>
    some ⟨direction, length, buffer.take length, buffer⟩
  | _ => none

/-- Whether there is something to do and room for it. The two conditions
are those that a session checks once the phase allows a transform. -/
def Task.Fits (task : Task) : Prop :=
  0 < task.length ∧ task.length ≤ task.buffer.length

instance (task : Task) : Decidable task.Fits :=
  inferInstanceAs (Decidable (_ ∧ _))

variable {call : Call} {task : Task}

/-- **Both forms of a transform are answered alike**: an objection is
returned with the buffer as it was, and otherwise the piece goes to the
stream and what lies behind it in the buffer stays. -/
theorem step_task (s : Session) (h : call.task? = some task) :
    s.step call = match s.objection? task.length task.buffer.length with
      | some e => (⟨.error e, task.buffer⟩, s)
      | none => s.transformStart task.direction task.piece
        (task.buffer.drop task.length) := by
  cases call <;> cases h <;> rfl

/-- A task that fits has all its bytes: in place there are as many in
the buffer as the length asks for. -/
theorem length_piece (h : call.task? = some task) (hfits : task.Fits) :
    task.piece.length = task.length := by
  cases call with
  | transform direction input output => cases h; rfl
  | transformInPlace direction buffer length =>
    cases h
    exact List.length_take_of_le hfits.2
  | _ => cases h

/-- **A transform reaches the stream** when the phase lets it and the
task fits, and in no other case. -/
theorem objection?_eq_none_iff {s : Session} :
    s.objection? task.length task.buffer.length = none
      ↔ s.phase.takesTransform = true ∧ task.Fits := by
  unfold objection? Task.Fits
  cases s.phase with
  | reset | transforming =>
    show (if task.length = 0 then some Error.emptyInput
      else if task.buffer.length < task.length then _ else none) = none
        ↔ true = true ∧ _
    by_cases h0 : task.length = 0
    · rw [if_pos h0]
      exact ⟨nofun, fun h => absurd h0 (Nat.ne_of_gt h.2.1)⟩
    · rw [if_neg h0]
      by_cases hroom : task.buffer.length < task.length
      · rw [if_pos hroom]
        exact ⟨nofun, fun h => absurd h.2.2 (Nat.not_le_of_lt hroom)⟩
      · rw [if_neg hroom]
        exact ⟨fun _ => ⟨rfl, Nat.pos_of_ne_zero h0, Nat.le_of_not_lt hroom⟩,
          fun _ => rfl⟩
  | constructed | tagExtracted | faulted =>
    exact ⟨nofun, fun h => Bool.noConfusion h.1⟩

/-- **The objections**: to the phase, and in the right phase to the
task. The last one reports both numbers, the length and the capacity. -/
theorem objection?_cases {s : Session} {length capacity : Nat} {e : Error}
    (he : s.objection? length capacity = some e) :
    (s.phase = .constructed ∧ e = .notReset)
      ∨ (s.phase = .faulted ∧ e = .faulted)
      ∨ e = .tagExtracted ∨ e = .emptyInput
        ∨ e = .insufficientCapacity length capacity := by
  unfold objection? at he
  cases hphase : s.phase with
  | constructed =>
    rw [hphase] at he
    exact .inl ⟨rfl, (Option.some.inj he).symm⟩
  | faulted =>
    rw [hphase] at he
    exact .inr (.inl ⟨rfl, (Option.some.inj he).symm⟩)
  | tagExtracted =>
    rw [hphase] at he
    exact .inr (.inr (.inl (Option.some.inj he).symm))
  | reset | transforming =>
    rw [hphase] at he
    dsimp only at he
    split at he
    · exact .inr (.inr (.inr (.inl (Option.some.inj he).symm)))
    · split at he
      · exact .inr (.inr (.inr (.inr (Option.some.inj he).symm)))
      · cases he

/-! ## The answers in a message -/

/-- **What a session holds** in the middle of a message that has come to
a transcript: the stream holds it, and the phase is one of a message. -/
structure Holds (cipher : BlockCipher) (tagLength : Nat) (mode : Mode)
    (t : Transcript) (s : Session) : Prop where
  /-- The stream holds the transcript. -/
  stream : Stream.Holds cipher tagLength mode t s.stream
  /-- A message is under way. -/
  inMessage : s.phase.inMessage = true
  /-- Up to the first transform the message has not begun. -/
  unbegun : s.phase = .reset → t.begun = false

variable {cipher : BlockCipher} {tagLength : Nat} {mode : Mode} {t : Transcript}
  {s : Session}

/-- The first call to the stream in a message. In Galois/counter mode it
is spared the associated data that is empty, which changes nothing: the
transcript with nothing added is the transcript there was. -/
theorem settles_startMessage {stream : Stream}
    (h : Stream.Keyed cipher tagLength mode stream) (nonce aad : Bytes) :
    Settles (mode.openingRefusal? nonce aad.length)
      (Stream.Holds cipher tagLength mode
          ((Transcript.start nonce).authenticate aad))
      (startMessage stream nonce aad) := by
  have hreset := h.reset nonce
  unfold startMessage Mode.openingRefusal?
  by_cases hn : mode.TakesNonce nonce
  · have hnone : mode.nonceRefusal? nonce = none := if_pos hn
    rw [hnone] at hreset ⊢
    obtain ⟨opened, hs, rfl⟩ := hreset
    have hopened : Stream.Holds cipher tagLength mode (Transcript.start nonce)
      (Stream.opened cipher tagLength nonce mode) := Stream.Holds.opened hn
    rw [hs, Option.none_or]
    show Settles
      _ _ (if (Stream.opened cipher tagLength nonce mode).mode = .ccm
        ∨ !aad.isEmpty
      then (Stream.opened cipher tagLength nonce mode).authenticate aad
        else .ok _)
    rw [hopened.keyed.mode_eq]
    split
    case isTrue => exact hopened.authenticate aad
    case isFalse hspared =>
      obtain ⟨hmode, hempty⟩ : mode ≠ .ccm ∧ aad = [] := by simpa using hspared
      cases mode with
      | gcm => exact hempty ▸ ⟨_, rfl, hopened⟩
      | ccm => exact absurd rfl hmode
  · have hsome : mode.nonceRefusal? nonce = some _ := if_neg hn
    rw [hsome] at hreset ⊢
    rw [show stream.reset nonce = .error _ from hreset]
    rfl

/-- **A reset that is granted** begins a message, whatever was before:
the phase it is granted in does not matter, not even that of a fault. -/
theorem step_reset_granted (h : Stream.Keyed cipher tagLength mode s.stream)
    {nonce aad : Bytes} (hr : mode.openingRefusal? nonce aad.length = none) :
    ∃ stream, s.step (.reset nonce aad) = (⟨.ok (), []⟩, ⟨stream, .reset⟩)
      ∧ Holds cipher tagLength mode ((Transcript.start nonce).authenticate aad)
          ⟨stream, .reset⟩ := by
  have hs := settles_startMessage h nonce aad
  rw [hr] at hs
  obtain ⟨stream, hs, hstream⟩ := hs
  refine ⟨stream, ?_, hstream, rfl, fun _ => rfl⟩
  simp only [step, reset, hs]

/-- A reset that is refused leaves the stream as it was and faults the
session, so that what was under way cannot be gone on with. -/
theorem step_reset_refused (h : Stream.Keyed cipher tagLength mode s.stream)
    {nonce aad : Bytes} {e : StreamError}
    (hr : mode.openingRefusal? nonce aad.length = some e) :
    s.step (.reset nonce aad)
      = (⟨.error (.initialization "reset" e), []⟩,
          { s with phase := .faulted }) := by
  have hs := settles_startMessage h nonce aad
  rw [hr] at hs
  have hs : startMessage s.stream nonce aad = .error e := hs
  simp only [step, reset, hs]

/-- **A session is made of every key and tag length that fit**, with AES
under this key. It has no message yet, and its stream belongs to the
cipher. -/
theorem exists_ofKey_of_cipher (mode : Mode) (tagLength : Nat) {key : Bytes}
    (hkey : key.length = 16 ∨ key.length = 24 ∨ key.length = 32)
    (htag : Stream.acceptsTagLength mode tagLength = true) :
    ∃ cipher fresh,
      Aes.blockCipher? key = some cipher ∧ ofKey mode key tagLength = .ok fresh
        ∧ Stream.Keyed cipher tagLength mode fresh.stream := by
  obtain ⟨cipher, stream, hcipher, hstream, hkeyed⟩ :=
    Stream.exists_ofKey mode tagLength hkey htag
  refine ⟨cipher, ⟨stream, .constructed⟩, hcipher, ?_, hkeyed⟩
  unfold ofKey
  rw [hstream]
  rcases hkey with h | h | h <;> rw [h] <;> rfl

/-- The same without saying what the cipher is, for the properties that
hold under any. -/
theorem exists_ofKey (mode : Mode) (tagLength : Nat) {key : Bytes}
    (hkey : key.length = 16 ∨ key.length = 24 ∨ key.length = 32)
    (htag : Stream.acceptsTagLength mode tagLength = true) :
    ∃ cipher fresh, ofKey mode key tagLength = .ok fresh
      ∧ Stream.Keyed cipher tagLength mode fresh.stream := by
  obtain ⟨cipher, fresh, -, hfresh, hkeyed⟩ :=
    exists_ofKey_of_cipher mode tagLength hkey htag
  exact ⟨cipher, fresh, hfresh, hkeyed⟩

/-- What is made of a key and a tag length belongs to them, and has not
been given a nonce. -/
theorem of_ofKey {key : Bytes} (hs : ofKey mode key tagLength = .ok s) :
    ∃ cipher, Stream.Keyed cipher tagLength mode s.stream
      ∧ s.phase = .constructed := by
  unfold ofKey Stream.ofKey at hs
  split at hs
  · cases hs
  · by_cases htag : Stream.acceptsTagLength mode tagLength = true
    · cases hcipher : Aes.blockCipher? key with
      | none => simp [htag, hcipher] at hs
      | some cipher =>
        obtain rfl :
          (⟨Stream.ofCipher mode cipher tagLength, .constructed⟩ : Session)
            = s := by
          simpa [htag, hcipher] using hs
        exact ⟨cipher, Stream.Keyed.ofCipher mode cipher tagLength, rfl⟩
    · simp [htag] at hs

/-- **A verification is a tag** whose bytes are looked at and not handed
out. The refusals are those of the tag of that length, and the session
afterwards is the one after the tag. -/
theorem step_verify (s : Session) (expected : Bytes) :
    s.step (.verify expected) = (⟨match (s.tag expected.length).1.outcome with
      | .error e => .error e
      | .ok _ => if (s.tag expected.length).1.buffer = expected then .ok ()
          else .error .authenticationFailed, []⟩,
            (s.tag expected.length).2) := by
  simp only [step, verify]
  obtain ⟨⟨outcome, buffer⟩, s'⟩ := s.tag expected.length
  cases outcome with
  | error e => rfl
  | ok _ =>
    by_cases hb : buffer = expected
    · simp only [if_pos hb]
    · simp only [if_neg hb]

/-- A tag leaves the stream as it was, whether it is granted or refused;
it is the phase that may change. -/
theorem stream_tag (s : Session) (n : Nat) : (s.tag n).2.stream = s.stream := by
  unfold tag
  cases s.phase with
  | constructed | faulted => rfl
  | reset | transforming | tagExtracted =>
    dsimp only
    split
    · rfl
    · cases s.stream.tag n <;> rfl

/-- **No call changes the key** of a session. Calls that the protocol
stops do not reach the stream at all, and those that reach it leave its
key alone. -/
theorem keyed_step (h : Stream.Keyed cipher tagLength mode s.stream)
    (call : Call) :
    Stream.Keyed cipher tagLength mode (s.step call).2.stream := by
  -- A transform changes the stream only if the stream itself has granted it.
  have htask {call : Call} {task : Task} (hc : call.task? = some task) :
      Stream.Keyed cipher tagLength mode (s.step call).2.stream := by
    rw [step_task s hc]
    split
    · exact h
    · unfold transformStart
      cases hs : s.stream.transform task.direction task.piece with
      | error e => exact h
      | ok out => exact h.of_transform hs
  cases call with
  | reset nonce aad =>
    cases hr : mode.openingRefusal? nonce aad.length with
    | some e => rw [step_reset_refused h hr]; exact h
    | none =>
      obtain ⟨stream, hstep, hnew⟩ := step_reset_granted h hr
      rw [hstep]
      exact hnew.stream.keyed
  | authenticate data =>
    simp only [step, authenticate]
    split
    · exact h
    · cases s.phase with
      | reset =>
        dsimp only
        split
        · exact h
        · cases hs : s.stream.authenticate data with
          | error e => exact h
          | ok stream => exact h.of_authenticate hs
      | _ => exact h
  | transform direction input output => exact htask rfl
  | transformInPlace direction buffer length => exact htask rfl
  | tag buffer => exact (s.stream_tag buffer.length).symm ▸ h
  | verify expected =>
    rw [step_verify, stream_tag]
    exact h

/-- No history changes the key of a session. It is fixed when the
session is made, and so is the length of its tags. -/
theorem keyed_after (h : Stream.Keyed cipher tagLength mode s.stream)
    (calls : List Call) :
    Stream.Keyed cipher tagLength mode (after step s calls).stream := by
  induction calls generalizing s with
  | nil => exact h
  | cons call calls ih => exact ih (keyed_step h call)

/-- A session keyed in Galois/counter mode is not in the other, which is
the test that lets associated data through. -/
theorem mode_ne_ccm (h : Stream.Keyed cipher tagLength .gcm s.stream) :
    ¬s.mode = .ccm := by
  rw [show s.mode = .gcm from h.mode_eq]
  exact nofun

/-- **More associated data that is granted.** Nothing is a piece of it
that does not reach the stream; the transcript is the same either way. -/
theorem Holds.step_authenticate_granted (h : Holds cipher tagLength .gcm t s)
    {data : Bytes} (hphase : s.phase = .reset)
    (hr : t.aadRefusal? .gcm data.length = none) :
    ∃ stream, s.step (.authenticate data) = (⟨.ok (), []⟩, ⟨stream, .reset⟩)
      ∧ Holds cipher tagLength .gcm (t.authenticate data) ⟨stream, .reset⟩ := by
  simp only [step, authenticate, if_neg (mode_ne_ccm h.stream.keyed), hphase]
  cases data with
  | nil =>
    refine ⟨s.stream, by rw [← hphase]; rfl, ?_⟩
    rw [show t.authenticate [] = t by simp [Transcript.authenticate]]
    exact ⟨h.stream, rfl, fun _ => h.unbegun hphase⟩
  | cons byte data =>
    have hs := h.stream.authenticate (byte :: data)
    rw [hr] at hs
    obtain ⟨stream, hs, hstream⟩ := hs
    rw [hs]
    exact ⟨stream, rfl, hstream, rfl, fun _ => h.unbegun hphase⟩

/-- More associated data that is refused changes nothing, neither stream
nor phase: the message can be gone on with. -/
theorem Holds.step_authenticate_refused (h : Holds cipher tagLength .gcm t s)
    {data : Bytes} (hphase : s.phase = .reset) {e : StreamError}
    (hr : t.aadRefusal? .gcm data.length = some e) :
    s.step (.authenticate data) = (⟨.error (.stream "aad" e), []⟩, s) := by
  simp only [step, authenticate, if_neg (mode_ne_ccm h.stream.keyed), hphase]
  cases data with
  | nil =>
    -- Nothing is never refused: what has been taken in is within the limit.
    have haccepted : t.aadRefusal? .gcm 0 = none :=
      Transcript.aadRefusal?_gcm_eq_none_iff.mpr
        ⟨h.unbegun hphase, h.stream.sound.aad⟩
    exact absurd (hr.symm.trans haccepted) nofun
  | cons byte data =>
    have hs := h.stream.authenticate (byte :: data)
    rw [hr] at hs
    rw [show s.stream.authenticate (byte :: data) = .error e from hs]
    rfl

/-- **A piece that is granted** comes out under the keystream, with the
rest of the buffer behind it as it was, and the session holds the longer
message. -/
theorem Holds.transformStart_granted (h : Holds cipher tagLength mode t s)
    (direction : Direction) {piece : Bytes} (rest : Bytes)
    (hr : t.messageRefusal? mode piece.length = none) :
    ∃ stream, s.transformStart direction piece rest
        = (⟨.ok (), t.crypt mode cipher.encrypt piece ++ rest⟩,
            ⟨stream, .transforming⟩)
      ∧ Holds cipher tagLength mode
          (t.transform direction piece (t.crypt mode cipher.encrypt piece))
          ⟨stream, .transforming⟩ := by
  have hs := h.stream.transform direction piece
  rw [hr] at hs
  obtain ⟨⟨result, stream⟩, hs, rfl, hstream⟩ := hs
  refine ⟨stream, ?_, hstream, rfl, nofun⟩
  simp only [transformStart, hs]

/-- A piece that is refused ends the message: the session is faulted,
and the buffer holds what it held. -/
theorem Holds.transformStart_refused (h : Holds cipher tagLength mode t s)
    (direction : Direction) {piece : Bytes} (rest : Bytes) {e : StreamError}
    (hr : t.messageRefusal? mode piece.length = some e) :
    s.transformStart direction piece rest
      = (⟨.error (.stream direction.name e), piece ++ rest⟩,
          { s with phase := .faulted }) := by
  have hs := h.stream.transform direction piece
  rw [hr] at hs
  have hs : s.stream.transform direction piece = .error e := hs
  simp only [transformStart, hs]

/-- A session takes the tag lengths of its mode, so that the check made
before the stream is asked never differs from the stream's own. -/
theorem takesTagLength_eq (h : Stream.Keyed cipher tagLength mode s.stream)
    (n : Nat) :
    s.takesTagLength n = decide (mode.TakesTag tagLength n) := by
  obtain ⟨stream, phase⟩ := s
  cases h with
  | gcm h => exact (Bool.decide_and ..).symm
  | ccm h =>
    show (n == _) = decide (n = tagLength)
    rw [← h.tagLength_eq]
    rfl

/-- **The tag in a message**, which may be asked for in any of its
phases and does not disturb it. A length that is not taken is refused
before the stream is asked, and leaves zeros. -/
theorem Holds.tag_eq (h : Holds cipher tagLength mode t s) (n : Nat) :
    s.tag n = if mode.TakesTag tagLength n
      then (⟨.ok (), (t.tag mode cipher.encrypt tagLength).toBytes.take n⟩,
        { s with phase := .tagExtracted })
      else (⟨.error (.tagLength n), Bytes.zeros n⟩, s) := by
  have hs := h.stream.tag n
  have htakes := takesTagLength_eq h.stream.keyed n
  have hin := h.inMessage
  unfold tag
  rw [htakes]
  by_cases hn : mode.TakesTag tagLength n
  · rw [Transcript.tagRefusal?_eq_none_iff.mpr hn] at hs
    obtain ⟨tag, hs, rfl⟩ := hs
    rw [if_pos hn, hs]
    cases hphase : s.phase <;> rw [hphase] at hin <;>
      first | exact Bool.noConfusion hin | simp [hn]
  · rw [if_neg hn]
    cases hphase : s.phase <;> rw [hphase] at hin <;>
      first | exact Bool.noConfusion hin | simp [hn]

/-- **A whole tag is taken if it is that of the message**, and only
then. The comparison is one of blocks, since a whole tag has all sixteen
bytes. -/
theorem Holds.step_verify_whole (h : Holds cipher tagLength mode t s)
    (hn : mode.TakesTag tagLength 16) (tag : Block) :
    (s.step (.verify tag.toBytes)).1
      = ⟨if t.tag mode cipher.encrypt tagLength = tag then .ok ()
          else .error .authenticationFailed, []⟩ := by
  rw [step_verify, Block.length_toBytes, h.tag_eq, if_pos hn]
  simp only [List.take_of_length_le (Nat.le_of_eq (Block.length_toBytes _))]
  by_cases heq : t.tag mode cipher.encrypt tagLength = tag
  · rw [if_pos heq, heq, if_pos rfl]
  · have hbytes : (t.tag mode cipher.encrypt tagLength).toBytes ≠ tag.toBytes :=
      fun hbytes => heq (Vector.toList_inj.mp hbytes)
    rw [if_neg heq, if_neg hbytes]

/-- After a tag the message is as before: another tag may be asked for,
and is the tag of the same transcript. -/
theorem Holds.tagExtracted (h : Holds cipher tagLength mode t s) :
    Holds cipher tagLength mode t { s with phase := .tagExtracted } :=
  ⟨h.stream, rfl, nofun⟩

end Session

end Strongbox.Aead
