import Strongbox.CbcMac

/-!
# Counter with CBC-MAC mode in one piece

The mode as NIST SP 800-38C states it, for a message that is there as a
whole: no state, no pieces. `crypt` is the exclusive or with the
keystream, the same in both directions, and `tag` the authentication of
nonce, associated data and plaintext. A `Ccm` stream computes these two
for a message that arrives in pieces.

## What is written out

The one-piece form is what a stream is held to, so that nothing of a
stream, nor of the format it goes by, is used in it. With `q` for the
bytes that a nonce of up to twelve bytes leaves behind it, `15` less its
length, each block of the standard is put together here from its bytes:

* counter block `i` is a byte with `q - 1`, the nonce, and `i` in `q`
  bytes; number zero is kept for the tag, and the keystream begins with
  number one;
* the opening block is a byte of flags, the nonce, and the length of the
  message in `q` bytes. The flags are `64` if there is associated data,
  eight times half of the tag length less two, and `q - 1`;
* associated data has its length in front of it, in two bytes if it is
  below `2 ^ 16 - 2 ^ 8`, in four behind the bytes `FF FE` if it is
  below `2 ^ 32`, and in eight behind `FF FF` otherwise.

Numbers stand with the most significant byte first. Associated data and
message are filled up with zeros to whole blocks, each on its own, and
what there is none of takes no block.

What the two forms have in common is below the mode: the block cipher,
which is any function on blocks, the cutting of bytes into blocks, and
the chain over a list of blocks.
-/

namespace Strongbox.Aead.Ccm.OneShot

/-- **Counter block `i` of a nonce**: the width of the number less one,
the nonce, the number. -/
def counter (nonce : Bytes) (i : Nat) : Block :=
  let q := 15 - nonce.length
  Block.ofBytes (UInt8.ofNat (q - 1) :: (nonce ++ Bytes.bigEndian q i))

/-- **The block that opens the authenticated input**: flags, nonce,
length of the message. -/
def opening (tagLength : Nat) (nonce aad message : Bytes) : Block :=
  let q := 15 - nonce.length
  let flags :=
    64 * (if aad = [] then 0 else 1) + 8 * ((tagLength - 2) / 2) + (q - 1)
  Block.ofBytes
    (UInt8.ofNat flags :: (nonce ++ Bytes.bigEndian q message.length))

/-- **What stands in front of associated data**: its length, in one of
three forms that are told apart by the first two bytes. -/
def header (length : Nat) : Bytes :=
  if length < 0xFF00 then Bytes.bigEndian 2 length
  else if length < 0x100000000 then
    [0xFF, 0xFE] ++ Bytes.bigEndian 4 length
  else [0xFF, 0xFF] ++ Bytes.bigEndian 8 length

/-- **The authenticated input of a message**: the opening block, the
associated data behind its length, the plaintext. -/
def input (tagLength : Nat) (nonce aad message : Bytes) : List Block :=
  opening tagLength nonce aad message
    :: ((if aad = [] then []
        else Block.split (header aad.length ++ aad))
      ++ Block.split message)

variable (cipher : Block → Block)

/-- **The message transformed**, in either direction: byte `j` under
byte `j % 16` of the counter block numbered `j / 16 + 1`, encrypted. -/
def crypt (nonce message : Bytes) : Bytes :=
  message.mapIdx fun j byte =>
    byte ^^^ (cipher (counter nonce (j / 16 + 1))).get
      ⟨j % 16, Block.mod_lt j⟩

/-- **The whole tag of a message**: the chain over its authenticated
input, under the encrypted counter block numbered zero. The tag that is
sent is as much of the beginning of it as the tag length says. -/
def tag (tagLength : Nat) (nonce aad plaintext : Bytes) : Block :=
  (CbcMac.ofBlocks cipher (input tagLength nonce aad plaintext)).xor
    (cipher (counter nonce 0))

end Strongbox.Aead.Ccm.OneShot
