import Strongbox.Ghash

/-!
# Galois/counter mode in one piece

The mode as NIST SP 800-38D states it, for a message that is there as a
whole: no state, no pieces. `crypt` is the exclusive or with the
keystream, the same in both directions, and `tag` the authentication of
associated data and ciphertext. A `Gcm` stream computes these two for a
message that arrives in pieces.

## What is written out

The one-piece form is what a stream is held to, so that nothing of a
stream is used in it. Each block of the standard is put together here
from its bytes:

* the start block of twelve bytes of nonce is the nonce and the number
  one in four bytes; the start block of any other nonce is the hash of
  the nonce, filled up to whole blocks, and a block with eight zeros and
  the length of the nonce in bits;
* the next counter block is the one before with the number in its last
  four bytes increased by one modulo `2 ^ 32`, which the standard calls
  `inc32`;
* the last block of the hash has the two lengths in bits, each in eight
  bytes.

Numbers stand with the most significant byte first. What the two forms
have in common is below the mode: the block cipher, which is any
function on blocks, the cutting of bytes into blocks, and the hash of a
list of blocks.

## Keystream

The counting begins with the start block, whose encryption is kept for
the tag. Byte `j` of a message therefore meets a byte of the block that
is counted `j / 16 + 1` times from there.
-/

namespace Strongbox.Aead.Gcm.OneShot

variable (cipher : Block → Block)

/-- **The hash key**: the encrypted block of sixteen zeros. -/
def hashKey : Block := cipher Block.zero

/-- **The start block of a nonce**: twelve bytes are followed by the
number one; a nonce of any other length is hashed, filled up to whole
blocks, with its length in bits in the block behind it. -/
def origin (nonce : Bytes) : Block :=
  if nonce.length = 12 then Block.ofBytes (nonce ++ [0, 0, 0, 1])
  else
    Ghash.ofBlocks (hashKey cipher)
      (Block.split nonce
        ++ [Block.ofBytes
          (Bytes.zeros 8 ++ Bytes.bigEndian 8 (8 * nonce.length))])

/-- **The next counter block**: the last four bytes are a number, which
is increased by one modulo `2 ^ 32`; the twelve bytes before them stay
as they are. -/
def inc32 (block : Block) : Block :=
  Block.ofBytes
    (block.toBytes.take 12
      ++ Bytes.bigEndian 4
        ((Bytes.ofBigEndian (block.toBytes.drop 12) + 1)
          % 0x100000000))

/-- **Byte `j` of the keystream** after a start block: byte `j % 16` of
the encryption of counter block `j / 16 + 1`. -/
def keyByte (start : Block) (j : Nat) : UInt8 :=
  (cipher (Nat.repeat inc32 (j / 16 + 1) start)).get
    ⟨j % 16, Block.mod_lt j⟩

/-- **The message transformed**, in either direction: byte `j` under
byte `j` of the keystream. -/
def crypt (start : Block) (message : Bytes) : Bytes :=
  message.mapIdx fun j byte => byte ^^^ keyByte cipher start j

/-- **The authentication of a message**: the hash of the associated data
and the ciphertext, each filled up to whole blocks, and of the block
with both lengths in bits. -/
def authenticator (aad ciphertext : Bytes) : Block :=
  Ghash.ofBlocks (hashKey cipher)
    (Block.split aad ++ Block.split ciphertext
      ++ [Block.ofBytes
        (Bytes.bigEndian 8 (8 * aad.length)
          ++ Bytes.bigEndian 8 (8 * ciphertext.length))])

/-- **The whole tag of a message**: its authentication under the
encrypted start block. Shorter tags are the beginning of it. -/
def tag (start : Block) (aad ciphertext : Bytes) : Block :=
  (cipher start).xor (authenticator cipher aad ciphertext)

end Strongbox.Aead.Gcm.OneShot
