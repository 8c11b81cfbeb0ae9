import Strongbox.Proofs.Aead.Record
import Strongbox.Proofs.Aead.Standard

/-!
# What a message has come to

Between two nonces a stream is given associated data and pieces of a
message, in calls of any size. A `Transcript` is all of that put
together: what has been authenticated, the plaintext and the ciphertext
so far, and whether the message has begun. It is read off the record of
the calls (`Transcript.ofRecord`), in which a refused call counts for
nothing.

A transcript knows how the next call must be answered. Its refusals say
when the call is refused and why, `Mode.keyByte` what stands at which
position of the keystream, and `Transcript.tag` what the tag is: the
one-shot functions of the two modes, and no state. That a stream answers
so is the business of the modules on the modes.

* `Settles` is the shape in which every call is described from here on:
  a refusal that may be there or not, and a property of the value if it
  is not. It is stronger than “if the call is granted, then …”, because
  it also says *when* the call is granted.
* `Mode.TakesNonce`, `Mode.TakesAad`, `Mode.maxMessageLength` and
  `Mode.TakesTag` are the admission rules of the two modes side by side,
  so that what is said of both is said once.
* `Transcript.Sound` is what every transcript of a stream satisfies: the
  limits are kept and the ciphertext is the plaintext under the
  keystream of the nonce. `Sound.start`, `Sound.authenticate` and
  `Sound.transform` carry it from call to call.
-/

namespace Strongbox.Aead

/-- **A result as it should be**: the refusal, where there is one, and
else some value that has a property. Both halves are facts: with no
refusal the call *is* granted, so that nothing proved in this form is
empty because the call never succeeds. -/
def Settles {α : Type} (refusal? : Option StreamError) (P : α → Prop) :
    Except StreamError α → Prop :=
  match refusal? with
  | some e => fun result => result = .error e
  | none => fun result => ∃ a, result = .ok a ∧ P a

/-- A settled result stays settled under a map on its value, with
whatever property the mapped value has. This is how a fact about a
stream of one mode becomes one about `Stream`, which only wraps it. -/
theorem Settles.map {α β : Type} {refusal? : Option StreamError} {P : α → Prop}
    {Q : β → Prop} {result : Except StreamError α}
    (h : Settles refusal? P result) (f : α → β) (hf : ∀ a, P a → Q (f a)) :
    Settles refusal? Q (result.map f) := by
  cases refusal? with
  | some e =>
    rw [show result = .error e from h]
    rfl
  | none =>
    obtain ⟨a, ha, hp⟩ := h
    rw [ha]
    exact ⟨f a, rfl, hf a hp⟩

/-- A result that is granted has the property: the case of a refusal is
excluded by the equation, and the value of the other is the one at hand. -/
theorem Settles.of_ok {α : Type} {refusal? : Option StreamError} {P : α → Prop}
    {result : Except StreamError α} (h : Settles refusal? P result) {a : α}
    (ha : result = .ok a) : P a := by
  cases refusal? with
  | some e => exact nomatch ha.symm.trans h
  | none =>
    obtain ⟨b, hb, hp⟩ := h
    cases ha.symm.trans hb
    exact hp

/-- What a mapped result that is granted comes from: a granted result,
and a value that is mapped to the one given. -/
theorem exists_of_map_eq_ok {α β : Type} {result : Except StreamError α}
    {f : α → β} {b : β} (h : result.map f = .ok b) :
    ∃ a, result = .ok a ∧ f a = b := by
  cases result with
  | error e => cases h
  | ok a => exact ⟨a, rfl, Except.ok.inj h⟩

/-! ## The two modes side by side -/

namespace Mode

/-- **The nonces of a mode.** Galois/counter mode takes any nonce that
is not empty, hashing what is not of the natural length; counter with
CBC-MAC mode must leave room in a block for a counter, and takes eight
to twelve bytes. -/
def TakesNonce : Mode → Bytes → Prop
  | gcm, nonce => nonce ≠ []
  | ccm, nonce =>
    Ccm.minNonceLength ≤ nonce.length ∧ nonce.length ≤ Ccm.maxNonceLength

instance (mode : Mode) (nonce : Bytes) : Decidable (mode.TakesNonce nonce) :=
  match mode with
  | gcm => inferInstanceAs (Decidable (nonce ≠ []))
  | ccm => inferInstanceAs (Decidable (_ ∧ _))

/-- **Why a nonce is refused**: for its length, which the refusal
reports, and for nothing else. The same rule serves every reset, the
first included. -/
def nonceRefusal? (mode : Mode) (nonce : Bytes) : Option StreamError :=
  if mode.TakesNonce nonce then none else some (.nonceLength nonce.length)

/-- Whether a mode takes so many bytes of associated data in all. Only
Galois/counter mode has a bound, from the 64-bit field in which the
length is hashed; in the other mode no length of associated data is
refused. -/
def TakesAad : Mode → Nat → Prop
  | gcm, n => n ≤ Gcm.maxAadLength
  | ccm, _ => True

instance (mode : Mode) (n : Nat) : Decidable (mode.TakesAad n) :=
  match mode with
  | gcm => inferInstanceAs (Decidable (_ ≤ _))
  | ccm => inferInstanceAs (Decidable True)

/-- The length of the longest message under a nonce. In Galois/counter
mode it is one number; in counter with CBC-MAC mode a longer nonce
leaves a narrower counter and hence a shorter message. -/
def maxMessageLength : Mode → Bytes → Nat
  | gcm, _ => Gcm.maxMessageLength
  | ccm, nonce => Ccm.maxMessageLength nonce

/-- **The tag lengths that may be asked for**, where `tagLength` is the
one fixed for the stream. Galois/counter mode truncates one tag to any
length, while the other mode binds the length into its first block, so
that no other can be asked for afterwards. -/
def TakesTag : Mode → (tagLength n : Nat) → Prop
  | gcm, _, n => 1 ≤ n ∧ n ≤ Gcm.maxTagLength
  | ccm, tagLength, n => n = tagLength

instance (mode : Mode) (tagLength n : Nat) :
    Decidable (mode.TakesTag tagLength n) :=
  match mode with
  | gcm => inferInstanceAs (Decidable (_ ∧ _))
  | ccm => inferInstanceAs (Decidable (n = tagLength))

/-- **Byte `j` of the keystream of a nonce**, the tag mask apart. The
counter of the first message block is one past that of the mask: the
successor of the start block in Galois/counter mode, counter block one
in the other. -/
def keyByte (cipher : Block → Block) :
    Mode → (nonce : Bytes) → (j : Nat) → UInt8
  | gcm, nonce => Keystream.byteAt cipher Gcm.nextCounter
      (Gcm.nextCounter (Gcm.OneShot.origin cipher nonce))
  | ccm, nonce =>
    Keystream.byteAt cipher (Ccm.nextCounter nonce) (Ccm.counterBlock nonce 1)

end Mode

/-! ## Exchanges with a stream -/

namespace Exchange

/-- The associated data that was taken in by one exchange: the bytes of
a granted `authenticate`, and nothing for a refused one or for any other
call. -/
def aad : Exchange Stream.Call StreamError → Bytes
  | ⟨.authenticate data, ⟨.ok _, _⟩⟩ => data
  | _ => []

/-- What went into a transform that was granted, on whichever side of
the cipher it stands. -/
def input : Exchange Stream.Call StreamError → Bytes
  | ⟨.transform _ piece, ⟨.ok _, _⟩⟩ => piece
  | _ => []

/-- What came out of a transform that was granted: what the buffer held
when the call returned. -/
def output : Exchange Stream.Call StreamError → Bytes
  | ⟨.transform _ _, ⟨.ok _, result⟩⟩ => result
  | _ => []

/-- The plaintext side of a transform that was granted: its input if it
encrypts, its output if it decrypts. -/
def plaintext : Exchange Stream.Call StreamError → Bytes
  | ⟨.transform .encrypt piece, ⟨.ok _, _⟩⟩ => piece
  | ⟨.transform .decrypt _, ⟨.ok _, result⟩⟩ => result
  | _ => []

/-- The ciphertext side of a transform that was granted, the opposite of
the one that `plaintext` takes. -/
def ciphertext : Exchange Stream.Call StreamError → Bytes
  | ⟨.transform .encrypt _, ⟨.ok _, result⟩⟩ => result
  | ⟨.transform .decrypt piece, ⟨.ok _, _⟩⟩ => piece
  | _ => []

/-- Whether a transform was made, of an empty piece also. In
Galois/counter mode even that one closes the associated data. -/
def transforms : Exchange Stream.Call StreamError → Bool
  | ⟨.transform _ _, ⟨.ok _, _⟩⟩ => true
  | _ => false

end Exchange

/-! ## Transcripts -/

/-- **What a message has come to**, as told by the calls alone. There is
no cipher in it and no state: two streams with the same transcript owe
the same answers. -/
structure Transcript where
  /-- The nonce of the message. -/
  nonce : Bytes
  /-- The associated data so far. -/
  aad : Bytes
  /-- The plaintext so far. -/
  plaintext : Bytes
  /-- The ciphertext so far. -/
  ciphertext : Bytes
  /-- Whether a transform has been made. -/
  begun : Bool

namespace Transcript

/-- The transcript of a message of which nothing has been given but its
nonce. -/
def start (nonce : Bytes) : Transcript := ⟨nonce, [], [], [], false⟩

/-- **The transcript of a record** of calls under a nonce: the
contributions of the exchanges, one behind the other. The record is the
one since the nonce was set, so that nothing of an earlier message
enters. -/
def ofRecord (nonce : Bytes)
    (record : List (Exchange Stream.Call StreamError)) :
    Transcript where
  nonce
  aad := record.flatMap Exchange.aad
  plaintext := record.flatMap Exchange.plaintext
  ciphertext := record.flatMap Exchange.ciphertext
  begun := record.any Exchange.transforms

/-- The transcript with one more exchange, whatever its call and however
it was answered. -/
def extend (t : Transcript) (e : Exchange Stream.Call StreamError) :
    Transcript :=
  ⟨t.nonce, t.aad ++ e.aad, t.plaintext ++ e.plaintext,
    t.ciphertext ++ e.ciphertext,
    t.begun || e.transforms⟩

/-- A record that grows at its end extends its transcript, so that an
induction over the calls is one over the transcripts. -/
theorem ofRecord_push (nonce : Bytes)
    (record : List (Exchange Stream.Call StreamError))
    (e : Exchange Stream.Call StreamError) :
    ofRecord nonce (record ++ [e]) = (ofRecord nonce record).extend e := by
  unfold ofRecord extend
  simp only [List.flatMap_append, List.flatMap_singleton, List.any_append,
    List.any_cons,
    List.any_nil, Bool.or_false]

/-- The transcript with more associated data behind what there was.
Where the data was cut does not matter any more. -/
def authenticate (t : Transcript) (data : Bytes) : Transcript :=
  { t with aad := t.aad ++ data }

/-- The transcript with a piece transformed into a result: each goes to
the side that the direction gives it, and the message has begun from
then on. -/
def transform (t : Transcript) (direction : Direction) (piece result : Bytes) :
    Transcript :=
  match direction with
  | .encrypt =>
    { t with
      plaintext := t.plaintext ++ piece
      ciphertext := t.ciphertext ++ result
      begun := true }
  | .decrypt =>
    { t with
      plaintext := t.plaintext ++ result
      ciphertext := t.ciphertext ++ piece
      begun := true }

/-!
A granted call extends a transcript by what was given in it, and a
refused one, or a tag, not at all.
-/

@[simp] theorem extend_authenticate (t : Transcript) (data buffer : Bytes) :
    t.extend ⟨.authenticate data, ⟨.ok (), buffer⟩⟩ = t.authenticate data := by
  simp [extend, authenticate, Exchange.aad, Exchange.plaintext,
    Exchange.ciphertext,
    Exchange.transforms]

@[simp] theorem extend_transform (t : Transcript) (direction : Direction)
    (piece result : Bytes) :
    t.extend ⟨.transform direction piece, ⟨.ok (), result⟩⟩
      = t.transform direction piece result := by
  cases direction <;>
    simp [extend, transform, Exchange.aad, Exchange.plaintext,
      Exchange.ciphertext,
      Exchange.transforms]

@[simp] theorem extend_tag (t : Transcript) (buffer : Bytes)
    (reply : Reply StreamError) :
    t.extend ⟨.tag buffer, reply⟩ = t := by
  simp [extend, Exchange.aad, Exchange.plaintext, Exchange.ciphertext,
    Exchange.transforms]

@[simp] theorem extend_error (t : Transcript) (call : Stream.Call)
    (e : StreamError) (buffer : Bytes) :
    t.extend ⟨call, ⟨.error e, buffer⟩⟩ = t := by
  cases call with
  | transform direction piece =>
    cases direction <;>
      simp [extend, Exchange.aad, Exchange.plaintext, Exchange.ciphertext,
        Exchange.transforms]
  | _ => simp [extend, Exchange.aad, Exchange.plaintext, Exchange.ciphertext,
    Exchange.transforms]

@[simp] theorem nonce_transform (t : Transcript) (direction : Direction)
    (piece result : Bytes) :
    (t.transform direction piece result).nonce = t.nonce := by
  cases direction <;> rfl

@[simp] theorem aad_transform (t : Transcript) (direction : Direction)
    (piece result : Bytes) :
    (t.transform direction piece result).aad = t.aad := by
  cases direction <;> rfl

@[simp] theorem begun_transform (t : Transcript) (direction : Direction)
    (piece result : Bytes) :
    (t.transform direction piece result).begun = true := by
  cases direction <;> rfl

/-- Both sides of a message grow alike. The plaintext side grows by the
piece when it is encrypted and by the result when it is decrypted, which
is the same as long as the two have one length. -/
theorem length_plaintext_transform (t : Transcript) (direction : Direction)
    {piece result : Bytes} (h : result.length = piece.length) :
    (t.transform direction piece result).plaintext.length
      = t.plaintext.length + piece.length := by
  cases direction with
  | encrypt => exact List.length_append
  | decrypt => exact h ▸ List.length_append

/-- **Why more associated data is refused.** In Galois/counter mode the
message must not have begun, even with an empty piece; in counter with
CBC-MAC mode no byte of it must have been transformed. -/
def aadRefusal? (mode : Mode) (t : Transcript) (n : Nat) : Option StreamError :=
  match mode with
  | .gcm =>
    if t.begun then some .aadAfterMessage
    else if t.aad.length + n > Gcm.maxAadLength then some .aadTooLong
    else none
  | .ccm => if t.plaintext.isEmpty then none else some .aadAfterMessage

/-- **Why another piece of the message is refused**: because the message
would pass the limit of its nonce with it. What counts is the whole of
it, not the piece. -/
def messageRefusal? (mode : Mode) (t : Transcript) (n : Nat) :
    Option StreamError :=
  if t.plaintext.length + n > mode.maxMessageLength t.nonce then
    some .messageTooLong else none

/-- **Why a tag is refused**: for the length asked for, which the
refusal reports. Nothing in the transcript bears on it. -/
def tagRefusal? (mode : Mode) (tagLength n : Nat) : Option StreamError :=
  if mode.TakesTag tagLength n then none else some (.tagLength n)

/-- Galois/counter mode takes more associated data as long as no
transform has been made and all of it stays within the limit. -/
theorem aadRefusal?_gcm_eq_none_iff {t : Transcript} {n : Nat} :
    t.aadRefusal? .gcm n = none
      ↔ t.begun = false ∧ t.aad.length + n ≤ Gcm.maxAadLength := by
  show (if t.begun then some StreamError.aadAfterMessage
    else if t.aad.length + n > Gcm.maxAadLength then some .aadTooLong else none)
      = none ↔ _
  by_cases hb : t.begun = true
  · rw [if_pos hb]
    simp [hb]
  · rw [if_neg hb, ite_eq_right_iff]
    simp [hb]

/-- A piece of the message is taken as long as all of it stays within
the limit of the nonce. -/
theorem messageRefusal?_eq_none_iff {mode : Mode} {t : Transcript} {n : Nat} :
    t.messageRefusal? mode n = none
      ↔ t.plaintext.length + n ≤ mode.maxMessageLength t.nonce := by
  unfold messageRefusal?
  rw [ite_eq_right_iff]
  simp

/-- A tag is made of exactly the lengths that the mode takes, in one
mode a range of them and in the other the one that was fixed. -/
theorem tagRefusal?_eq_none_iff {mode : Mode} {tagLength n : Nat} :
    tagRefusal? mode tagLength n = none ↔ mode.TakesTag tagLength n := by
  unfold tagRefusal?
  rw [ite_eq_left_iff]
  simp

/-- **What becomes of the next piece of the message**: the piece under
the keystream from where the message has come to. The direction does not
enter, since the same bytes are put on and taken off. -/
def crypt (mode : Mode) (cipher : Block → Block) (t : Transcript)
    (piece : Bytes) : Bytes :=
  Keystream.under (mode.keyByte cipher t.nonce) t.plaintext.length piece

@[simp] theorem length_crypt (mode : Mode) (cipher : Block → Block)
    (t : Transcript) (piece : Bytes) :
    (t.crypt mode cipher piece).length = piece.length :=
  Keystream.length_under _ _ _

/-- **The whole tag of the message**, by the one-piece function of the
mode applied to all that has been given. A tag of fewer bytes is its
beginning. -/
def tag (mode : Mode) (cipher : Block → Block) (tagLength : Nat)
    (t : Transcript) : Block :=
  match mode with
  | .gcm => Gcm.OneShot.tag cipher (Gcm.OneShot.origin cipher t.nonce) t.aad
    t.ciphertext
  | .ccm => Ccm.OneShot.tag cipher tagLength t.nonce t.aad t.plaintext

/-- **What holds of every transcript of a stream.** The transcript is
told by calls that could hold anything; that its calls were answered by
a stream shows in these facts. -/
structure Sound (mode : Mode) (cipher : Block → Block) (t : Transcript) :
    Prop where
  /-- The nonce is one of the mode's. -/
  nonce : mode.TakesNonce t.nonce
  /-- The associated data is within the limit. -/
  aad : mode.TakesAad t.aad.length
  /-- The message is within the limit. -/
  message : t.plaintext.length ≤ mode.maxMessageLength t.nonce
  /-- The ciphertext is the plaintext under the keystream. -/
  ciphertext : t.ciphertext
    = Keystream.under (mode.keyByte cipher t.nonce) 0 t.plaintext
  /-- No byte has been transformed without a transform. -/
  unbegun : t.begun = false → t.plaintext = []

variable {mode : Mode} {cipher : Block → Block} {t : Transcript}

/-- The two sides of a message have one length, because a keystream
neither shortens nor lengthens. -/
theorem Sound.length (h : t.Sound mode cipher) :
    t.ciphertext.length = t.plaintext.length := by
  rw [h.ciphertext, Keystream.length_under]

/-- The transcript of a nonce that is taken is sound: with nothing
given, all limits are kept. -/
theorem Sound.start {nonce : Bytes} (h : mode.TakesNonce nonce) :
    (start nonce).Sound mode cipher where
  nonce := h
  aad := by cases mode with
    | gcm => exact Nat.zero_le _
    | ccm => trivial
  message := Nat.zero_le _
  ciphertext := rfl
  unbegun _ := rfl

/-- Associated data that is not refused leaves a transcript sound. In
the one mode the refusal is what keeps the limit; in the other there is
no limit to keep. -/
theorem Sound.authenticate (h : t.Sound mode cipher) {data : Bytes}
    (hr : t.aadRefusal? mode data.length = none) :
    (t.authenticate data).Sound mode cipher where
  nonce := h.nonce
  aad := by cases mode with
    | gcm =>
      show (t.aad ++ data).length ≤ Gcm.maxAadLength
      rw [List.length_append]
      exact (aadRefusal?_gcm_eq_none_iff.mp hr).2
    | ccm => trivial
  message := h.message
  ciphertext := h.ciphertext
  unbegun := h.unbegun

/-- A piece that is not refused leaves a transcript sound. Both
directions come to the same, because the keystream is taken off as it is
put on: the ciphertext of the longer message is that of the shorter one
followed by the piece under the keystream from there. -/
theorem Sound.transform (h : t.Sound mode cipher) (direction : Direction)
    {piece : Bytes} (hr : t.messageRefusal? mode piece.length = none) :
    (t.transform direction piece (t.crypt mode cipher piece)).Sound mode
      cipher := by
  have hlimit := messageRefusal?_eq_none_iff.mp hr
  cases direction with
  | encrypt =>
    refine ⟨h.nonce, h.aad, ?_, ?_, fun hb => Bool.noConfusion hb⟩
    · show (t.plaintext ++ piece).length ≤ _
      rw [List.length_append]
      exact hlimit
    · show t.ciphertext ++ t.crypt mode cipher piece
        = Keystream.under (mode.keyByte cipher t.nonce) 0 (t.plaintext ++ piece)
      rw [Keystream.under_append, Nat.zero_add, ← h.ciphertext]
      rfl
  | decrypt =>
    refine ⟨h.nonce, h.aad, ?_, ?_, fun hb => Bool.noConfusion hb⟩
    · show (t.plaintext ++ t.crypt mode cipher piece).length ≤ _
      rw [List.length_append, crypt, Keystream.length_under]
      exact hlimit
    · show t.ciphertext ++ piece
        = Keystream.under (mode.keyByte cipher t.nonce) 0
          (t.plaintext ++ t.crypt mode cipher piece)
      rw [Keystream.under_append, Nat.zero_add, ← h.ciphertext, crypt,
        Keystream.under_under]

end Transcript

end Strongbox.Aead
