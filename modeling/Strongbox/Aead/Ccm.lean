import Strongbox.Aead.Ccm.Format
import Strongbox.Aead.Error
import Strongbox.BlockCipher
import Strongbox.CbcMac
import Strongbox.Keystream

/-!
# Counter with CBC-MAC mode

AES-CCM (NIST SP 800-38C) over messages that arrive in pieces.

Encryption streams: the keystream runs over the counter blocks of the
nonce from number one on. Authentication cannot, because the opening
block of the authenticated input carries the length of the whole
message. The stream therefore keeps the associated data and the
plaintext, and computes the tag over them when it is asked for. A tag
may be asked for at any time, and the message may go on after it.

Before the first nonce there is no message at all, and every call but
`reset` is refused as if an empty nonce had been given.

## What is kept

Both directions keep plaintext: an encryption keeps what goes in, a
decryption what comes out. The memory of a stream therefore grows with
the message, up to the limit that the nonce sets, and a reset lets go of
it.

Associated data is taken until the first byte has been transformed. An
empty piece transforms nothing, and associated data may still follow it;
the other mode is stricter here.

## The tag

`Message.mac` chains the blocks of the input with a `CbcMac` that is
begun for each tag and thrown away after it. The length of the tag is in
the opening block, so that a tag of one length is not the beginning of a
tag of another, and a stream makes tags of one length only.
-/

namespace Strongbox.Aead

/-- **A message under way in counter with CBC-MAC mode.** A message
without a nonce is not one, and so the nonce is always there. -/
structure Ccm.Message where
  /-- The nonce of the message. -/
  nonce : Bytes
  /-- The keystream of the message. -/
  keystream : Keystream
  /-- The associated data so far. -/
  aad : Bytes
  /-- The plaintext so far. -/
  plaintext : Bytes

/-- **A stream in counter with CBC-MAC mode.** The cipher and the tag
length outlive every message. -/
structure Ccm where
  /-- The keyed block cipher. -/
  cipher : BlockCipher
  /-- The length of every tag of the stream. -/
  tagLength : Nat
  /-- The current message, once there has been a nonce. -/
  message? : Option Ccm.Message

namespace Ccm

/-- The bytes of working state that a stream keeps beside the message:
counter block, keystream block, chaining value and nonce. What is kept
of the message itself is not in it. -/
def stateSize : Nat := 4 * 16

/-- A stream under a block cipher, with tags of a fixed length, before
any nonce. There is no message, and none of its fields has to be made
up. -/
def ofCipher (cipher : BlockCipher) (tagLength : Nat) : Ccm where
  cipher
  tagLength
  message? := none

/-- The message that a nonce begins. The mask of its tag is counter
block zero, and the keystream starts behind it. -/
def Message.start (nonce : Bytes) : Message where
  nonce
  keystream := Keystream.start (counterBlock nonce 1)
  aad := []
  plaintext := []

/-- **Begins a message.** Nothing of an earlier message remains. A nonce
that is refused leaves the earlier message as it was. -/
def reset (c : Ccm) (nonce : Bytes) : Except StreamError Ccm :=
  if nonce.length < minNonceLength ∨ maxNonceLength < nonce.length then
    .error (.nonceLength nonce.length)
  else .ok { c with message? := some (Message.start nonce) }

/-- **Takes in associated data**, as long as no byte of the message has
been transformed. The data is appended to what has come before, in
however many calls. -/
def authenticate (c : Ccm) (data : Bytes) : Except StreamError Ccm :=
  match c.message? with
  | none => .error (.nonceLength 0)
  | some m =>
    if !m.plaintext.isEmpty then .error .aadAfterMessage
    else .ok { c with message? := some { m with aad := m.aad ++ data } }

/-- **Transforms the next piece of the message**, and keeps its
plaintext side for the tag. The limit is that of the nonce, and a piece
that would pass it is refused as a whole. -/
def transform (c : Ccm) (direction : Direction) (piece : Bytes) :
    Except StreamError (Bytes × Ccm) :=
  match c.message? with
  | none => .error (.nonceLength 0)
  | some m =>
    if m.plaintext.length + piece.length > maxMessageLength m.nonce then
      .error .messageTooLong
    else
      let (result, keystream) :=
        m.keystream.apply c.cipher.encrypt (nextCounter m.nonce) piece
      let plaintext := match direction with
        | .encrypt => piece
        | .decrypt => result
      .ok (result, { c with message? := some { m with
        keystream
        plaintext := m.plaintext ++ plaintext } })

/-- The chaining value over the authenticated input of a message.
Associated data is chained in two calls, its length and then itself, and
closed before the message. -/
def Message.mac (m : Message) (cipher : Block → Block) (tagLength : Nat) :
    Block :=
  let opening := openingBlock tagLength m.nonce m.aad m.plaintext.length
  let mac := CbcMac.start.absorb cipher opening.toBytes
  let mac :=
    if m.aad.isEmpty then mac
    else ((mac.absorb cipher (aadHeader m.aad.length)).absorb cipher m.aad).pad
      cipher
  ((mac.absorb cipher m.plaintext).pad cipher).chain

/-- **The tag of the message so far**, which has the length fixed for
the stream and no other. It is computed from what is kept, and leaves
everything as it is. -/
def tag (c : Ccm) (length : Nat) : Except StreamError Bytes :=
  match c.message? with
  | none => .error (.nonceLength 0)
  | some m =>
    if length ≠ c.tagLength then .error (.tagLength length)
    else
      let mask := c.cipher.encrypt (counterBlock m.nonce 0)
      .ok (((m.mac c.cipher.encrypt c.tagLength).xor mask).toBytes.take length)

end Ccm

end Strongbox.Aead
