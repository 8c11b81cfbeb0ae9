import Strongbox.Proofs.Aead.Stream

/-!
# Messages in pieces and messages in one piece

The standards state both modes for a message that is there as a whole. A
stream is given it in pieces, in both directions, with tags asked for on
the way, and after whatever it has been used for before. The two main
statements, one for each mode, say that this makes no difference: all
that is transformed under a nonce is transformed as one piece, and every
tag is the tag of what has been given so far.

They hold of every list of calls that does not begin another message, in
any order and with refused calls among them. `Stream.Answers` says how
the next call is answered after such a list, whichever call it is; since
the list is arbitrary, that settles every call within a history.

* `Holds.output_eq` is the statement about the message alone: the
  outputs of the transforms, one behind the other, are the inputs under
  the keystream from its beginning. Directions may be mixed, since the
  keystream is put on and taken off alike.
* `Answers` puts the functions `crypt` and `tag` in the place of the
  stream's state. The tag is a function of all associated data, of the
  plaintext side and of the ciphertext side; each mode uses one of the
  two sides.
* The last theorems fill in `Gcm.OneShot` and `Ccm.OneShot`, which are
  written from the standards' own bytes, and start from any history: a
  used stream is put by a nonce into the state of a fresh one.
-/

namespace Strongbox.Aead

/-! ## What goes in and what comes out -/

/-- What a transform hands out is what went in, under the keystream from
the position the message has reached. A call that is refused, or is no
transform, has nothing on either side, and nothing is transformed to
nothing. -/
theorem Transcript.output_answer (mode : Mode) (cipher : Block → Block)
    (tagLength : Nat) (t : Transcript) (call : Stream.Call) :
    Exchange.output ⟨call, t.answer mode cipher tagLength call⟩
      = t.crypt mode cipher
        (Exchange.input ⟨call, t.answer mode cipher tagLength call⟩) := by
  cases call with
  | transform direction piece =>
    simp only [answer]
    cases t.messageRefusal? mode piece.length with
    | some e => rfl
    | none => rfl
  | _ => rfl

/-- As many bytes go in as the plaintext grows by, in both directions
and for calls of every kind. -/
theorem Transcript.length_input_answer (mode : Mode) (cipher : Block → Block)
    (tagLength : Nat) (t : Transcript) (call : Stream.Call) :
    (Exchange.input ⟨call, t.answer mode cipher tagLength call⟩).length
      = (Exchange.plaintext
          ⟨call, t.answer mode cipher tagLength call⟩).length := by
  cases call with
  | transform direction piece =>
    simp only [answer]
    cases t.messageRefusal? mode piece.length with
    | some e => cases direction <;> rfl
    | none =>
      cases direction with
      | encrypt => rfl
      | decrypt => exact (t.length_crypt mode cipher piece).symm
  | _ => rfl

namespace Stream

/-- **How a stream answers after a record** of calls under a nonce: as
if there were two functions, one that transforms whole messages and one
from associated data, plaintext and ciphertext to whole tags. The record
is arbitrary, and so this settles how each call within a history is
answered and not only the one at its end. -/
structure Answers (mode : Mode) (crypt : Bytes → Bytes)
    (tag : Bytes → Bytes → Bytes → Block) (tagLength : Nat) (nonce : Bytes)
    (done : List (Exchange Call StreamError)) (s : Stream) :
    Prop where
  /-- All that came out of the transforms is all that went in,
  transformed. -/
  transformed : done.flatMap Exchange.output
    = crypt (done.flatMap Exchange.input)
  /-- More associated data is taken or refused. -/
  authenticate (data : Bytes) : (s.step (.authenticate data)).1
    = Reply.settled
      ((Transcript.ofRecord nonce done).aadRefusal? mode data.length) [] []
  /-- The next piece is transformed as the end of the message so far, or
  refused and left as it is. -/
  transform (direction : Direction) (piece : Bytes) :
    (s.step (.transform direction piece)).1
      = Reply.settled
        ((Transcript.ofRecord nonce done).messageRefusal? mode piece.length)
        piece
        ((crypt (done.flatMap Exchange.input ++ piece)).drop
          (done.flatMap Exchange.input).length)
  /-- A tag is that of the message so far, cut to the length of the
  buffer; a length that the mode does not take is refused. -/
  tag (buffer : Bytes) : (s.step (.tag buffer)).1
    = Reply.settled (Transcript.tagRefusal? mode tagLength buffer.length) buffer
        ((tag (done.flatMap Exchange.aad) (done.flatMap Exchange.plaintext)
          (done.flatMap Exchange.ciphertext)).toBytes.take buffer.length)

variable {cipher : BlockCipher} {tagLength : Nat} {mode : Mode} {nonce : Bytes}
  {s : Stream}

/-- **All that is transformed under a nonce is transformed as one
piece**, and the plaintext is as long as what went in. The pieces may be
of any sizes, empty ones included, with other calls and refused ones
between them. -/
theorem Holds.output_eq
    (h : Holds cipher tagLength mode (Transcript.start nonce) s)
    {calls : List Call} (hc : ∀ call ∈ calls, call.continues = true) :
    (Aead.record Stream.step s calls).flatMap Exchange.output
        = Keystream.under (mode.keyByte cipher.encrypt nonce) 0
            ((Aead.record Stream.step s calls).flatMap Exchange.input)
      ∧ ((Aead.record Stream.step s calls).flatMap Exchange.input).length
        = (Transcript.ofRecord nonce
            (Aead.record Stream.step s calls)).plaintext.length := by
  refine (h.record (fun done =>
    done.flatMap Exchange.output
        = Keystream.under (mode.keyByte cipher.encrypt nonce) 0
          (done.flatMap Exchange.input)
      ∧ (done.flatMap Exchange.input).length
        = (Transcript.ofRecord nonce done).plaintext.length)
    (fun done call hdone => ?_) [] ⟨rfl, rfl⟩ calls hc).1
  obtain ⟨hout, hlen⟩ := hdone
  have hanswer := Transcript.output_answer mode cipher.encrypt tagLength
    (Transcript.ofRecord nonce done) call
  have hinput := Transcript.length_input_answer mode cipher.encrypt tagLength
    (Transcript.ofRecord nonce done) call
  simp only [List.flatMap_append, List.flatMap_singleton]
  constructor
  · rw [Keystream.under_append, Nat.zero_add, ← hout, hlen, hanswer]
    rfl
  · rw [List.length_append, hlen, hinput, Transcript.ofRecord_push]
    exact List.length_append.symm

/-- **A stream answers as the mode asks** for messages that are there as
a whole, where the two functions are known to be the keystream and the
tag of its transcripts. -/
theorem Holds.answers
    (h : Holds cipher tagLength mode (Transcript.start nonce) s)
    {calls : List Call} (hc : ∀ call ∈ calls, call.continues = true)
    {crypt : Bytes → Bytes} {tag : Bytes → Bytes → Bytes → Block}
    (hcrypt : ∀ message,
        crypt message
          = Keystream.under (mode.keyByte cipher.encrypt nonce) 0 message)
    (htag : ∀ aad plaintext ciphertext begun,
        tag aad plaintext ciphertext
          = Transcript.tag mode cipher.encrypt tagLength
        ⟨nonce, aad, plaintext, ciphertext, begun⟩) :
    Answers mode crypt tag tagLength nonce (Aead.record Stream.step s calls)
      (s.run calls).2 := by
  obtain ⟨hout, hlen⟩ := h.output_eq hc
  have hnow :=
    (h.record (fun _ => True) (fun _ _ _ => trivial) [] trivial calls hc).2
  rw [run_eq]
  refine ⟨?_, fun data => (hnow.step rfl).1, fun direction piece => ?_,
    fun buffer => ?_⟩
  · rw [hout, hcrypt]
  · -- What is in front of the piece falls off the transformed whole.
    have hdrop :
      (crypt ((Aead.record Stream.step s calls).flatMap Exchange.input
          ++ piece)).drop
        ((Aead.record Stream.step s calls).flatMap Exchange.input).length
          = (Transcript.ofRecord nonce (Aead.record Stream.step s calls)).crypt
            mode
              cipher.encrypt piece := by
      rw [hcrypt, Keystream.under_append, Nat.zero_add,
        List.drop_left' (Keystream.length_under ..), hlen]
      rfl
    rw [hdrop]
    exact (hnow.step rfl).1
  · rw [htag _ _ _ ((Aead.record Stream.step s calls).any Exchange.transforms)]
    exact (hnow.step rfl).1

/-- A stream of a key, after whatever it has been used for, is put by a
nonce into the state that a fresh one is put into, and has been given
nothing. The earlier calls are arbitrary: other nonces, messages broken
off in the middle, refusals. -/
theorem exists_opened (mode : Mode) (tagLength : Nat) {key : Bytes}
    (hkey : key.length = 16 ∨ key.length = 24 ∨ key.length = 32)
    (htag : acceptsTagLength mode tagLength = true) (earlier : List Call)
    (hnonce : mode.TakesNonce nonce) :
    ∃ cipher fresh,
      Aes.blockCipher? key = some cipher ∧ ofKey mode key tagLength = .ok fresh
        ∧ (fresh.run earlier).2.step (.reset nonce) = fresh.step (.reset nonce)
        ∧ ((fresh.run earlier).2.step (.reset nonce)).1 = ⟨.ok (), []⟩
        ∧ Holds cipher tagLength mode (Transcript.start nonce)
            ((fresh.run earlier).2.step (.reset nonce)).2 := by
  obtain ⟨cipher, fresh, hcipher, hfresh, hkeyed⟩ :=
    exists_ofKey mode tagLength hkey htag
  have hopened := (hkeyed.after earlier).step_reset hnonce
  rw [show after Stream.step fresh earlier = (fresh.run earlier).2 by
    rw [run_eq]] at hopened
  refine ⟨cipher, fresh, hcipher, hfresh, ?_, ?_, ?_⟩
  · rw [hopened, hkeyed.step_reset hnonce]
  · rw [hopened]
  · rw [hopened]
    exact Holds.opened hnonce

end Stream

/-! ## The two modes -/

/-- **A stream in Galois/counter mode is the mode in one piece**, under
every key of the three lengths. Whatever has been done with the stream,
a nonce puts it into the state that a fresh stream is put into; and
whatever is done with it from there, up to the next nonce, it answers as
the one-shot functions say. -/
theorem Stream.gcm_answers_as_oneShot (key : Bytes)
    (hkey : key.length = 16 ∨ key.length = 24 ∨ key.length = 32)
    (tagLength : Nat) (earlier : List Stream.Call) (nonce : Bytes)
    (hnonce : nonce ≠ []) (calls : List Stream.Call)
    (hcalls : ∀ call ∈ calls, call.continues = true) :
    ∃ cipher fresh, Aes.blockCipher? key = some cipher
      ∧ Stream.ofKey .gcm key tagLength = .ok fresh
      ∧ let opened := (fresh.run earlier).2.step (.reset nonce)
        let start := Gcm.OneShot.origin cipher.encrypt nonce
        opened = fresh.step (.reset nonce)
          ∧ opened.1 = ⟨.ok (), []⟩
          ∧ Stream.Answers .gcm (Gcm.OneShot.crypt cipher.encrypt start)
              (fun aad _ ciphertext =>
                  Gcm.OneShot.tag cipher.encrypt start aad ciphertext) tagLength
              nonce (record Stream.step opened.2 calls)
                (opened.2.run calls).2 := by
  obtain ⟨cipher, fresh, hcipher, hfresh, hsame, hreply, hopened⟩ :=
    Stream.exists_opened .gcm tagLength hkey rfl earlier hnonce
  refine ⟨cipher, fresh, hcipher, hfresh, hsame, hreply,
    hopened.answers hcalls (fun message => ?_) (fun _ _ _ _ => rfl)⟩
  exact Gcm.OneShot.crypt_eq cipher.encrypt _ message

/-- A stream that has been used before, and then is given associated
data, a piece, a tag in the middle of a block, and a piece in the other
direction. The conditions of the general theorem hold there. -/
theorem Stream.gcm_answers_as_oneShot_mixed :
    ∃ cipher fresh, Aes.blockCipher? (Bytes.zeros 16) = some cipher
      ∧ Stream.ofKey .gcm (Bytes.zeros 16) 16 = .ok fresh
      ∧ let opened := (fresh.run [.transform .encrypt [7]]).2.step (.reset [1])
        let calls : List Stream.Call :=
          [.authenticate [2], .transform .encrypt [3, 4], .tag [0, 0],
            .transform .decrypt [5]]
        let start := Gcm.OneShot.origin cipher.encrypt [1]
        Stream.Answers .gcm (Gcm.OneShot.crypt cipher.encrypt start)
          (fun aad _ ciphertext =>
              Gcm.OneShot.tag cipher.encrypt start aad ciphertext) 16
          [1] (record Stream.step opened.2 calls) (opened.2.run calls).2 := by
  obtain ⟨cipher, fresh, hcipher, hfresh, -, -, h⟩ :=
    Stream.gcm_answers_as_oneShot (Bytes.zeros 16) (by decide) 16
      [.transform .encrypt [7]] [1] (by decide)
      [.authenticate [2], .transform .encrypt [3, 4], .tag [0, 0],
        .transform .decrypt [5]]
      (by decide)
  exact ⟨cipher, fresh, hcipher, hfresh, h⟩

/-- **A stream in counter with CBC-MAC mode is the mode in one piece**,
under every key of the three lengths and every tag length of the mode.
The nonce must leave room for the counter, and again nothing of what the
stream was used for before remains. -/
theorem Stream.ccm_answers_as_oneShot (key : Bytes)
    (hkey : key.length = 16 ∨ key.length = 24 ∨ key.length = 32)
    (tagLength : Nat) (htag : tagLength ∈ Ccm.tagLengths)
    (earlier : List Stream.Call) (nonce : Bytes)
    (hnonce : 8 ≤ nonce.length ∧ nonce.length ≤ 12) (calls : List Stream.Call)
    (hcalls : ∀ call ∈ calls, call.continues = true) :
    ∃ cipher fresh, Aes.blockCipher? key = some cipher
      ∧ Stream.ofKey .ccm key tagLength = .ok fresh
      ∧ let opened := (fresh.run earlier).2.step (.reset nonce)
        opened = fresh.step (.reset nonce)
          ∧ opened.1 = ⟨.ok (), []⟩
          ∧ Stream.Answers .ccm (Ccm.OneShot.crypt cipher.encrypt nonce)
              (fun aad plaintext _ =>
                  Ccm.OneShot.tag cipher.encrypt tagLength nonce aad plaintext)
              tagLength nonce (record Stream.step opened.2 calls)
                (opened.2.run calls).2 := by
  obtain ⟨cipher, fresh, hcipher, hfresh, hsame, hreply, hopened⟩ :=
    Stream.exists_opened .ccm tagLength hkey (List.contains_iff_mem.mpr htag)
      earlier hnonce
  refine ⟨cipher, fresh, hcipher, hfresh, hsame, hreply,
    hopened.answers hcalls (fun message => ?_) (fun _ _ _ _ => rfl)⟩
  exact Ccm.OneShot.crypt_eq cipher.encrypt (by omega) message

/-- A stream that has been used before, with the shortest nonce and the
shortest tag, which are the ends of the two ranges that the general
theorem asks for. -/
theorem Stream.ccm_answers_as_oneShot_mixed :
    ∃ cipher fresh, Aes.blockCipher? (Bytes.zeros 16) = some cipher
      ∧ Stream.ofKey .ccm (Bytes.zeros 16) 4 = .ok fresh
      ∧ let opened :=
        (fresh.run [.reset (Bytes.zeros 12), .transform .encrypt [7]]).2.step
          (.reset (Bytes.zeros 8))
        let calls : List Stream.Call :=
          [.authenticate [2], .transform .encrypt [3, 4], .tag (Bytes.zeros 4),
            .transform .decrypt [5]]
        Stream.Answers .ccm (Ccm.OneShot.crypt cipher.encrypt (Bytes.zeros 8))
          (fun aad plaintext _ =>
              Ccm.OneShot.tag cipher.encrypt 4 (Bytes.zeros 8) aad plaintext) 4
          (Bytes.zeros 8) (record Stream.step opened.2 calls)
            (opened.2.run calls).2 := by
  obtain ⟨cipher, fresh, hcipher, hfresh, -, -, h⟩ :=
    Stream.ccm_answers_as_oneShot (Bytes.zeros 16) (by decide) 4 (by decide)
      [.reset (Bytes.zeros 12), .transform .encrypt [7]] (Bytes.zeros 8)
        (by decide)
      [.authenticate [2], .transform .encrypt [3, 4], .tag (Bytes.zeros 4),
        .transform .decrypt [5]] (by decide)
  exact ⟨cipher, fresh, hcipher, hfresh, h⟩

end Strongbox.Aead
