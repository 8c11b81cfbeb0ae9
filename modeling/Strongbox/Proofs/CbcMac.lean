import Strongbox.CbcMac
import Strongbox.Proofs.WholeBlocks

/-!
# The chain over bytes that arrive in pieces

`CbcMac` adds every byte to the chaining value where it falls and
encrypts when a block is full; `CbcMac.ofBlocks` is the chain over
blocks. `CbcMac.Holds` joins them, as `Ghash.Holds` does for the other
hash of this library, with one difference: the bytes of the block under
way are not kept beside the chaining value but are in it already.

`Holds.push` is the step, one byte; `Holds.absorb` a piece of any
length; `Holds.pad` closes the block under way, so that the bytes have
become blocks.

## Why the sum is enough

A block is chained by adding it to the value and encrypting. Adding is
by bytes, so that the bytes may be added one at a time as they come, and
the value with some of them added is the value under way. The bytes of
the block that have not come yet count as zero in the meantime. If they
never come, the block is the one that was filled up with zeros, and
closing it is encrypting the value as it stands.

The invariant says exactly this: the chain over the blocks that are
done, with the rest of the bytes added to it as one block.
-/

namespace Strongbox.CbcMac

variable (cipher : Block → Block)

/-- The chain over one more block takes one more step. It is how a chain
is computed while its blocks are still arriving. -/
theorem ofBlocks_push (blocks : List Block) (block : Block) :
    ofBlocks cipher (blocks ++ [block])
      = link cipher (ofBlocks cipher blocks) block := by
  rw [ofBlocks, List.foldl_append]
  rfl

/-- **The state of a chain after blocks and bytes.** The bytes are those
that have come since the last time the chain was closed. -/
structure Holds (done : List Block) (bytes : Bytes) (mac : CbcMac) : Prop where
  /-- The chain has run over the blocks and the whole blocks of the
  bytes, and what is left of the bytes has been added to it. -/
  chain : mac.chain
    = (ofBlocks cipher (done ++ Block.whole bytes)).xor
      (Block.ofBytes (Block.rest bytes))
  /-- As many bytes of the block under way have been added as are left. -/
  filled : mac.filled = bytes.length % 16

/-- A chain begins with no block and no byte. The rest of no bytes is
the zero block, and adding it changes nothing. -/
theorem Holds.start : Holds cipher [] [] start where
  chain := by
    rw [Block.whole_nil, Block.rest_nil, Block.ofBytes_nil, Block.xor_zero]
    rfl
  filled := rfl

variable {cipher} {done : List Block} {bytes : Bytes} {mac : CbcMac}

/-- **One more byte.** The sixteenth one finishes a block, which is
encrypted; the others are only added to the chaining value. -/
theorem Holds.push (h : Holds cipher done bytes mac) (byte : UInt8) :
    Holds cipher done (bytes ++ [byte]) (mac.push cipher byte) := by
  obtain ⟨chain, filled⟩ := mac
  obtain ⟨hc, hf⟩ := h
  simp only at hc hf
  subst hc hf
  have hrest : (Block.rest bytes).length = bytes.length % 16 :=
    Block.length_rest bytes
  have hset :=
    Block.xor_ofBytes_push (ofBlocks cipher (done ++ Block.whole bytes))
      (Block.rest bytes) byte (by rw [hrest]; exact Nat.mod_lt _ (by decide))
  simp only [hrest] at hset
  by_cases hlt : bytes.length % 16 < 15
  · obtain ⟨hw, hr⟩ := Block.push_of_lt bytes byte hlt
    refine ⟨?_, ?_⟩
    · rw [hw, hr, hset]
      simp [CbcMac.push, hlt]
    · rw [List.length_append, List.length_singleton]
      simp only [CbcMac.push, hlt, dite_true]
      omega
  · -- the byte completes the block under way, which is encrypted
    have heq : bytes.length % 16 = 15 := by omega
    obtain ⟨hw, hr⟩ := Block.push_of_eq bytes byte heq
    simp only [heq] at hset
    refine ⟨?_, ?_⟩
    · rw [hw, hr, Block.ofBytes_nil, Block.xor_zero, ← List.append_assoc,
        ofBlocks_push, link,
        hset]
      simp [CbcMac.push, hlt]
    · rw [List.length_append, List.length_singleton]
      simp only [CbcMac.push, hlt, dite_false]
      omega

/-- **A piece of any length.** By induction over the piece, from its
end. -/
theorem Holds.absorb (h : Holds cipher done bytes mac) (piece : Bytes) :
    Holds cipher done (bytes ++ piece) (mac.absorb cipher piece) := by
  induction piece generalizing bytes mac with
  | nil => simpa using h
  | cons byte rest ih =>
    have hnext := ih (h.push byte)
    rwa [List.append_assoc] at hnext

/-- **Padded, the bytes have become blocks.** The zeros that fill the
last one are not added to the chain, because adding them changes
nothing. At a block boundary there is nothing to close. -/
theorem Holds.pad (h : Holds cipher done bytes mac) :
    Holds cipher (done ++ Block.split bytes) [] (mac.pad cipher) := by
  obtain ⟨hc, hf⟩ := h
  have hrest : (Block.rest bytes).length = bytes.length % 16 :=
    Block.length_rest bytes
  rw [Block.split_eq, ← List.append_assoc]
  by_cases h0 : mac.filled = 0
  · have hnil : Block.rest bytes = [] :=
      List.eq_nil_of_length_eq_zero (by omega)
    rw [hnil] at hc
    rw [hnil, Block.split_nil, List.append_nil, CbcMac.pad, if_pos h0]
    exact ⟨by simpa using hc, h0⟩
  · have hne : Block.rest bytes ≠ [] := by
      intro hnil
      rw [hnil, List.length_nil] at hrest
      omega
    rw [Block.split_of_length_le hne (by omega), CbcMac.pad, if_neg h0]
    refine ⟨?_, rfl⟩
    rw [Block.whole_nil, Block.rest_nil, Block.ofBytes_nil, Block.xor_zero,
      List.append_nil,
      ofBlocks_push, link, hc]

/-- At a block boundary the bytes have become blocks without padding. So
padding a string of whole blocks, or not, comes to the same. -/
theorem Holds.aligned (h : Holds cipher done bytes mac)
    (h16 : bytes.length % 16 = 0) :
    Holds cipher (done ++ Block.split bytes) [] mac := by
  have hpad : mac.pad cipher = mac := if_pos (h.filled.trans h16)
  exact hpad ▸ h.pad

/-- **The chaining value at a block boundary.** There is no rest, and
adding the zero block changes nothing. -/
theorem Holds.chain_eq (h : Holds cipher done [] mac) :
    mac.chain = ofBlocks cipher done := by
  rw [h.chain, Block.whole_nil, Block.rest_nil, Block.ofBytes_nil,
    Block.xor_zero,
    List.append_nil]

end Strongbox.CbcMac
