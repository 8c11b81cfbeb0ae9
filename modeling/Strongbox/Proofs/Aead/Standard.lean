import Strongbox.Aead.Ccm.OneShot
import Strongbox.Aead.Gcm
import Strongbox.Aead.Gcm.OneShot
import Strongbox.Proofs.Aead.CounterBlocks

/-!
# The blocks of the streams are those of the standards

The one-piece forms of the two modes put every block together from its
bytes, as the standards do; the streams have functions of their own for
the same blocks, which they count up, hash and chain piece by piece.
This module is where the two meet, block by block, and it is the only
one in which the layout of a block is compared.

In Galois/counter mode the streams count with `nextCounter` and close
the hash with `lengthBlock`. The number in the last four bytes is cut to
its width when it is written, so that the modulus of `inc32` makes no
difference (`Gcm.OneShot.inc32_eq`); and counting once more than there
are blocks before a byte is counting from the block after the start
block (`Gcm.OneShot.keyByte_eq`).

In counter with CBC-MAC mode the streams go by `counterBlock`,
`openingBlock` and `aadHeader`, of which `macBlocks` is made. The
standard's forms are the same bytes under other names
(`Ccm.OneShot.input_eq`); but the streams find the next counter block by
adding one to the block before it, and the standard by its number
(`Ccm.OneShot.crypt_eq`).

What is proved of the streams is stated with their own functions, and
carried over to the one-piece forms by the equations of this module. If
a block of a mode is laid out differently one day, the equation about it
is the one that breaks.
-/

namespace Strongbox.Aead

/-! ## Galois/counter mode -/

namespace Gcm.OneShot

/-- **The increment of the standard is the step of the streams.** The
number is written with its low four bytes on both sides, so that
reducing it before makes no difference. -/
theorem inc32_eq : inc32 = nextCounter := by
  funext block
  have hwidth : 0x100000000 = 256 ^ 4 := by decide
  unfold inc32 nextCounter Block.increment Block.low
  rw [hwidth, Bytes.bigEndian_mod]

variable (cipher : Block → Block)

/-- **The keystream of the standard**, which is counted from the start
block, is that of a stream, which is counted from the block after it. -/
theorem keyByte_eq (start : Block) (j : Nat) :
    keyByte cipher start j
      = Keystream.byteAt cipher nextCounter (nextCounter start) j := by
  unfold keyByte Keystream.byteAt
  rw [inc32_eq, Keystream.repeat_next]

/-- **In one piece a message is transformed** under the keystream that a
stream puts on it piece by piece. -/
theorem crypt_eq (start : Block) (message : Bytes) :
    crypt cipher start message
      = Keystream.under
          (Keystream.byteAt cipher nextCounter (nextCounter start))
          0 message := by
  unfold crypt Keystream.under
  refine congrArg (List.mapIdx · message) ?_
  funext j byte
  rw [Nat.zero_add, keyByte_eq]

/-- **The start block of a nonce**, with the closing block that the
streams use. -/
theorem origin_of_ne {nonce : Bytes} (h : nonce.length ≠ nonceLength) :
    origin cipher nonce
      = Ghash.ofBlocks (hashKey cipher)
          (Block.split nonce ++ [lengthBlock 0 nonce.length]) := by
  unfold origin
  rw [if_neg (show ¬nonce.length = 12 from h)]
  rfl

end Gcm.OneShot

/-! ## Counter with CBC-MAC mode -/

namespace Ccm.OneShot

/-- The flags of the opening block, with the bit for associated data in
front. -/
theorem flags_eq (tagLength : Nat) (nonce aad : Bytes) :
    64 * (if aad = [] then 0 else 1) + 8 * ((tagLength - 2) / 2)
        + (15 - nonce.length - 1)
      = openingFlags tagLength nonce aad := by
  unfold openingFlags lengthWidth
  cases aad with
  | nil => rfl
  | cons byte rest => rfl

/-- **The authenticated input of the standard is that of the streams**:
the same opening block, the same length in front of the associated data. -/
theorem input_eq (tagLength : Nat) (nonce aad message : Bytes) :
    input tagLength nonce aad message
      = macBlocks tagLength nonce aad message := by
  have hopening : opening tagLength nonce aad message
      = openingBlock tagLength nonce aad message.length := by
    unfold opening
    dsimp only
    rw [flags_eq]
    rfl
  have haad : (if aad = [] then []
      else Block.split (header aad.length ++ aad)) = aadBlocks aad := by
    cases aad with
    | nil => rfl
    | cons byte rest => rfl
  unfold input macBlocks
  rw [hopening, haad]

variable (cipher : Block → Block)

/-- **The tag of the standard**, over the blocks that the streams chain.
The standard formats its input from bytes of its own; that these are the
blocks of `macBlocks` is what the lemmas before have shown. -/
theorem tag_eq (tagLength : Nat) (nonce aad plaintext : Bytes) :
    tag cipher tagLength nonce aad plaintext
      = (CbcMac.ofBlocks cipher
          (macBlocks tagLength nonce aad plaintext)).xor
            (cipher (counterBlock nonce 0)) := by
  unfold tag
  rw [input_eq]
  rfl

/-- **In one piece a message is transformed** under the keystream that a
stream puts on it piece by piece: adding one reaches the counter blocks
in the order of their numbers. -/
theorem crypt_eq {nonce : Bytes} (h : nonce.length ≤ 15)
    (message : Bytes) :
    crypt cipher nonce message
      = Keystream.under
          (Keystream.byteAt cipher (nextCounter nonce)
            (counterBlock nonce 1))
          0 message := by
  unfold crypt Keystream.under
  refine congrArg (List.mapIdx · message) ?_
  funext j byte
  rw [Nat.zero_add, byteAt_counterBlock nonce cipher h j]
  rfl

end Ccm.OneShot

end Strongbox.Aead
