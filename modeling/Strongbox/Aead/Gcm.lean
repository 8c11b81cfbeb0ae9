import Strongbox.Aead.Error
import Strongbox.BlockCipher
import Strongbox.Ghash
import Strongbox.Keystream

/-!
# Galois/counter mode

AES-GCM (NIST SP 800-38D) over messages that arrive in pieces.

A nonce fixes a start block. Encrypted, it masks the tag; counted up in
its last four bytes, it yields the keystream. The tag authenticates the
associated data and the ciphertext through one `Ghash`: the associated
data first, completed to whole blocks when the message begins, then the
ciphertext – which is what comes out of an encryption and what goes into
a decryption – and last a block with both lengths in bits.

A tag may be asked for at any time and does not disturb the stream.

## Limits

A nonce has at least one byte, a message at most `2³⁶ - 32` bytes, and
the associated data at most `2⁶¹ - 1`, so that each length in bits fits
its 64-bit field. Every refusal is decided before anything changes, and
so returns no new state.

## The state

Nothing of a message is kept but what its future needs: the start block
for the mask, the keystream where it stands, the hash and the two
lengths. A stream before its first nonce has a start block of zeros and
takes calls like any other; that a session does not let them through is
not its business.

The keystream begins with the block after the start block, so that the
mask is never handed out as keystream. Since at most `2³² - 2` blocks
are needed for a message of the greatest length, the counter does not
come round to the start block either.
-/

namespace Strongbox.Aead

/-- **A stream in Galois/counter mode.** The hash key is kept in `hash`,
and outlives every message. -/
structure Gcm where
  /-- The keyed block cipher. -/
  cipher : BlockCipher
  /-- The start block of the current message. -/
  origin : Block
  /-- The keystream of the current message. -/
  keystream : Keystream
  /-- The hash of the associated data and the ciphertext so far. -/
  hash : Ghash
  /-- The length of the associated data so far. -/
  aadLength : Nat
  /-- The length of the message so far. -/
  messageLength : Nat
  /-- Whether the message has begun, so that no associated data may
  follow. -/
  inMessage : Bool

namespace Gcm

/-- The nonce length that needs no hashing. Twelve bytes leave room for
a counter of four. -/
def nonceLength : Nat := 12

/-- The length of the longest tag. It is the length of a block. -/
def maxTagLength : Nat := 16

/-- The length of the longest message: 2³⁹ - 256 bits. Two counter
blocks fewer than there are in a cycle are left for the keystream. -/
def maxMessageLength : Nat := 0x1000000000 - 32

/-- The length of the longest associated data: below 2⁶⁴ bits. A length
in bits that is wider than its field would be cut, and two inputs of
different lengths could then be closed alike. -/
def maxAadLength : Nat := 0x2000000000000000 - 1

/-- The bytes of working state that a stream keeps: start block, counter
block, keystream block, pending block and hash key. It is a number that
a stream tells about itself. -/
def stateSize : Nat := 5 * 16

/-- The block that closes the hash: two lengths in bits, as 64-bit
numbers. The first one is that of the associated data and the second one
that of the ciphertext; for a nonce that is hashed, they are zero and
the length of the nonce. -/
def lengthBlock (first second : Nat) : Block :=
  Block.ofBytes
    (Bytes.bigEndian 8 (8 * first) ++ Bytes.bigEndian 8 (8 * second))

/-- **The start block of a nonce.** Twelve bytes are followed by the
number one; a nonce of any other length is hashed together with its
length. The hash is that of the message, under the same key. -/
def startBlock (hashKey : Block) (nonce : Bytes) : Block :=
  if nonce.length = nonceLength then
    Block.ofBytes (nonce ++ Bytes.bigEndian 4 1)
  else
    ((Ghash.start hashKey).absorb nonce).digest (lengthBlock 0 nonce.length)

/-- The step from one counter block to the next. The counter is the last
four bytes, and the others never change. -/
def nextCounter : Block → Block := Block.increment 4

/-- A stream under a block cipher, before any nonce: its start block and
its counter block are zero, and its hash key is the encrypted zero
block. All of it is known from the cipher, and no key is needed beside
it. -/
def ofCipher (cipher : BlockCipher) : Gcm where
  cipher
  origin := Block.zero
  keystream := Keystream.start Block.zero
  hash := Ghash.start (cipher.encrypt Block.zero)
  aadLength := 0
  messageLength := 0
  inMessage := false

/-- **Begins a message.** Nothing of an earlier message remains. The
hash begins anew under the key it had, and so the cipher need not be
asked for it again. -/
def reset (g : Gcm) (nonce : Bytes) : Except StreamError Gcm :=
  if nonce.isEmpty then .error (.nonceLength 0)
  else
    let origin := startBlock g.hash.key nonce
    .ok {
      cipher := g.cipher
      origin
      keystream := Keystream.start (nextCounter origin)
      hash := Ghash.start g.hash.key
      aadLength := 0
      messageLength := 0
      inMessage := false }

/-- **Takes in associated data**, as long as the message has not begun.
The limit counts what has come before under this nonce, and a refusal
changes nothing. -/
def authenticate (g : Gcm) (data : Bytes) : Except StreamError Gcm :=
  if g.inMessage then .error .aadAfterMessage
  else if g.aadLength + data.length > maxAadLength then .error .aadTooLong
  else .ok { g with
    hash := g.hash.absorb data
    aadLength := g.aadLength + data.length }

/-- The stream with its message begun: the associated data is completed
to whole blocks, once. A second call does nothing, so that every
transform may begin with it. -/
def beginMessage (g : Gcm) : Gcm :=
  if g.inMessage then g else { g with hash := g.hash.flush, inMessage := true }

/-- **Transforms the next piece of the message.** The hash takes in the
ciphertext side of the piece. An empty piece begins the message too. The
limit is looked at first, for the message as a whole: a piece that would
pass it leaves the message unbegun. -/
def transform (g : Gcm) (direction : Direction) (piece : Bytes) :
    Except StreamError (Bytes × Gcm) :=
  if g.messageLength + piece.length > maxMessageLength then
    .error .messageTooLong
  else
    let g := g.beginMessage
    let (result, keystream) :=
      g.keystream.apply g.cipher.encrypt nextCounter piece
    let ciphertext := match direction with
      | .encrypt => result
      | .decrypt => piece
    .ok (result, { g with
      keystream
      hash := g.hash.absorb ciphertext
      messageLength := g.messageLength + piece.length })

/-- The whole tag of the message so far: the closed hash under the mask
of the encrypted start block. The hash of the stream is closed on a
copy, so that the message may go on after its tag. -/
def fullTag (g : Gcm) : Block :=
  (g.cipher.encrypt g.origin).xor
    (g.hash.digest (lengthBlock g.aadLength g.messageLength))

/-- **The tag of the message so far**, cut to a length from 1 to 16. A
shorter tag is the beginning of a longer one. -/
def tag (g : Gcm) (length : Nat) : Except StreamError Bytes :=
  if length = 0 ∨ length > maxTagLength then .error (.tagLength length)
  else .ok (g.fullTag.toBytes.take length)

end Gcm

end Strongbox.Aead
