import Strongbox.Block

/-!
# The blocks of counter with CBC-MAC mode

How NIST SP 800-38C lays out what the mode encrypts and what it
authenticates.

Every block that carries the nonce has the same shape: a byte of flags,
the nonce, and a number that fills the rest. The nonce therefore decides
the width of that number, and with it the length of the longest message;
the flags carry the width, so that nonces of different lengths cannot be
confused. Counter blocks have only the width in their flags. The opening
block of the authenticated input also has the tag length in them, and a
bit that says whether associated data follows.

Associated data is preceded by its length, in two, six or ten bytes, and
is filled up with zeros to whole blocks; so is the message after it.
`macBlocks` is the whole of that input.

## Why no two inputs meet

The tag is a chain over these blocks, and a chain is a good code only if
no input is the beginning of another one. Three things see to that. The
opening block tells the length of the nonce, of the tag and of the
message, and whether there is associated data; the length in front of
the associated data can be told from what follows, since the three forms
begin with different pairs of bytes; and what is filled up is as long as
these lengths say.

Counter blocks and opening blocks are told apart by their flags: a tag
length less two, halved, is at least one, so that the flags of an
opening block are above those of any counter block.

The bounds on nonces are narrower than those of the standard, which
allows seven bytes and thirteen as well.
-/

namespace Strongbox.Aead.Ccm

/-- The shortest nonce. It leaves seven bytes for the number behind it,
and messages of less than `2⁵⁶` bytes. -/
def minNonceLength : Nat := 8

/-- The longest nonce. It leaves three bytes, and messages of less than
`2²⁴` bytes. -/
def maxNonceLength : Nat := 12

/-- The tag lengths of the mode. They are the even ones from four to
sixteen. -/
def tagLengths : List Nat := [4, 6, 8, 10, 12, 14, 16]

/-- The width in bytes of the number that stands behind a nonce. Flags
and nonce take the other bytes of the block. -/
def lengthWidth (nonce : Bytes) : Nat := 15 - nonce.length

/-- The length of the longest message under a nonce: what the number
behind it can count. Every length up to it can be written behind the
nonce. -/
def maxMessageLength (nonce : Bytes) : Nat :=
  (1 <<< (8 * lengthWidth nonce)) - 1

/-- **A block around a nonce**: flags, nonce, number. All blocks of the
format that are not made of data have this form, which is why their laws
are proved once. -/
def nonceBlock (flags : Nat) (nonce : Bytes) (number : Nat) : Block :=
  Block.ofBytes
    (UInt8.ofNat flags :: (nonce ++ Bytes.bigEndian (lengthWidth nonce) number))

/-- **The counter blocks of a nonce.** Number zero masks the tag, and
the keystream begins with number one. Their flags hold the width of the
number less one and nothing else. -/
def counterBlock (nonce : Bytes) (number : Nat) : Block :=
  nonceBlock (lengthWidth nonce - 1) nonce number

/-- The step from one counter block of a nonce to the next. The number
is as wide as the nonce leaves it, and the nonce before it is not
touched. -/
def nextCounter (nonce : Bytes) : Block → Block :=
  Block.increment (lengthWidth nonce)

/-- The flags of the opening block. The three parts do not overlap: a
bit, three bits for the tag length and three for the width. -/
def openingFlags (tagLength : Nat) (nonce aad : Bytes) : Nat :=
  (if aad.isEmpty then 0 else 64) + 8 * ((tagLength - 2) / 2)
    + (lengthWidth nonce - 1)

/-- **The opening block of the authenticated input**: flags, nonce,
message length. It comes first, which is why a stream cannot begin to
authenticate before it knows how long the message is. -/
def openingBlock (tagLength : Nat) (nonce aad : Bytes) (messageLength : Nat) :
    Block :=
  nonceBlock (openingFlags tagLength nonce aad) nonce messageLength

/-- **The length that precedes associated data.** Short lengths take two
bytes; longer ones are marked by a first pair of bytes that no short
length has. The form is the one the standard prescribes for the length,
and no length may be written in two forms. -/
def aadHeader (length : Nat) : Bytes :=
  if length < 0xFF00 then Bytes.bigEndian 2 length
  else if length < 0x100000000 then 0xFF :: 0xFE :: Bytes.bigEndian 4 length
  else 0xFF :: 0xFF :: Bytes.bigEndian 8 length

/-- The blocks of the associated data; there are none if it is empty.
The length and the data are one string, which is filled up at its end. -/
def aadBlocks (aad : Bytes) : List Block :=
  if aad.isEmpty then [] else Block.split (aadHeader aad.length ++ aad)

/-- **The authenticated input of a message**: opening block, associated
data, plaintext. The message begins with a block of its own, like the
associated data. -/
def macBlocks (tagLength : Nat) (nonce aad message : Bytes) : List Block :=
  openingBlock tagLength nonce aad message.length
    :: (aadBlocks aad ++ Block.split message)

end Strongbox.Aead.Ccm
