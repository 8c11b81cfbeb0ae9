import Strongbox.Ghash
import Strongbox.Proofs.WholeBlocks

/-!
# The hash of bytes that arrive in pieces

`Ghash` is fed bytes and `Ghash.ofBlocks` is a sum over blocks.
`Ghash.Holds` joins them: the state of a hash that has been given some
blocks, and after them some bytes of which the last ones may not fill a
block. `Holds.push` is the step, one byte; `Holds.absorb` a piece of any
length; `Holds.flush` turns the bytes into blocks, which is what happens
between associated data and message.

`Holds.digest` is what this is for: the hash that comes out is the sum
over the blocks, the bytes cut into blocks, and the closing block.

## Two lists

The invariant is about two lists. `done` are blocks that are closed, and
`bytes` what has come since. A message has two parts, associated data
and ciphertext, each of which is filled up on its own: while the first
part comes in there are no blocks done, and when it has been flushed its
blocks are, and the bytes begin anew. So one invariant serves both
parts, and the boundary between them is the step from bytes to blocks.

The state has the rest of the bytes in a block of its own, with zeros
behind them, and nothing has to be done to it when it is closed.
-/

namespace Strongbox.Ghash

/-- The sum over one more block. Horner's rule takes its next step: the
block is added, and the sum multiplied by the key. -/
theorem ofBlocks_push (key : Block) (blocks : List Block) (block : Block) :
    ofBlocks key (blocks ++ [block])
      = step key (ofBlocks key blocks) block := by
  rw [ofBlocks, List.foldl_append]
  rfl

@[simp] theorem key_absorb (g : Ghash) (bytes : Bytes) :
    (g.absorb bytes).key = g.key := by
  induction bytes generalizing g with
  | nil => rfl
  | cons byte rest ih =>
    show ((g.push byte).absorb rest).key = g.key
    rw [ih]
    unfold Ghash.push
    split <;> rfl

@[simp] theorem key_flush (g : Ghash) : g.flush.key = g.key := by
  unfold Ghash.flush
  split <;> rfl

/-- **The state of a hash after blocks and bytes.** What is pending is a
block at all times, also when no byte is. -/
structure Holds (key : Block) (done : List Block) (bytes : Bytes) (g : Ghash) :
    Prop where
  /-- The hash is under this key. -/
  keyed : g.key = key
  /-- The blocks, and the whole blocks of the bytes, have been added in. -/
  sum : g.sum = ofBlocks key (done ++ Block.whole bytes)
  /-- What is left of the bytes is pending, with zeros after it. -/
  pending : g.pending = Block.ofBytes (Block.rest bytes)
  /-- As many bytes are pending as are left. -/
  filled : g.filled = bytes.length % 16

/-- A hash begins with no block and no byte. The sum of no block is
zero. -/
theorem Holds.start (key : Block) : Holds key [] [] (start key) where
  keyed := rfl
  sum := by
    rw [Block.whole_nil]
    rfl
  pending := by
    rw [Block.rest_nil, Block.ofBytes_nil]
    rfl
  filled := rfl

variable {key : Block} {done : List Block} {bytes : Bytes} {g : Ghash}

/-- **One more byte.** The sixteenth one adds the pending block in and
leaves an empty one; the others are written behind what is pending. -/
theorem Holds.push (h : Holds key done bytes g) (byte : UInt8) :
    Holds key done (bytes ++ [byte]) (g.push byte) := by
  obtain ⟨k, sum, pending, filled⟩ := g
  obtain ⟨hk, hs, hp, hf⟩ := h
  simp only at hk hs hp hf
  subst hk hf
  have hrest : (Block.rest bytes).length = bytes.length % 16 :=
    Block.length_rest bytes
  have hset := Block.ofBytes_push (Block.rest bytes) byte
    (by rw [hrest]; exact Nat.mod_lt _ (by decide))
  simp only [hrest] at hset
  by_cases hlt : bytes.length % 16 < 15
  · obtain ⟨hw, hr⟩ := Block.push_of_lt bytes byte hlt
    refine ⟨?_, ?_, ?_, ?_⟩
    · simp [Ghash.push, hlt]
    · simpa [Ghash.push, hlt, hw] using hs
    · rw [hr, hset, ← hp]
      simp [Ghash.push, hlt]
    · rw [List.length_append, List.length_singleton]
      simp only [Ghash.push, hlt, dite_true]
      omega
  · -- the byte completes the pending block, which is added in
    have heq : bytes.length % 16 = 15 := by omega
    obtain ⟨hw, hr⟩ := Block.push_of_eq bytes byte heq
    simp only [heq] at hset
    refine ⟨?_, ?_, ?_, ?_⟩
    · simp [Ghash.push, hlt]
    · rw [hw, ← List.append_assoc, ofBlocks_push, ← hs, hset, ← hp]
      simp [Ghash.push, hlt]
    · rw [hr, Block.ofBytes_nil]
      simp [Ghash.push, hlt]
    · rw [List.length_append, List.length_singleton]
      simp only [Ghash.push, hlt, dite_false]
      omega

/-- **A piece of any length.** By induction over the piece, from its
end. -/
theorem Holds.absorb (h : Holds key done bytes g) (piece : Bytes) :
    Holds key done (bytes ++ piece) (g.absorb piece) := by
  induction piece generalizing bytes g with
  | nil => simpa using h
  | cons byte rest ih =>
    have hnext := ih (h.push byte)
    rwa [List.append_assoc] at hnext

/-- **Flushed, the bytes have become blocks.** At a block boundary
nothing is pending, and there is no block for it. -/
theorem Holds.flush (h : Holds key done bytes g) :
    Holds key (done ++ Block.split bytes) [] g.flush := by
  obtain ⟨hk, hs, hp, hf⟩ := h
  have hrest : (Block.rest bytes).length = bytes.length % 16 :=
    Block.length_rest bytes
  rw [Block.split_eq, ← List.append_assoc]
  by_cases h0 : g.filled = 0
  · have hnil : Block.rest bytes = [] :=
      List.eq_nil_of_length_eq_zero (by omega)
    rw [hnil, Block.ofBytes_nil] at hp
    rw [hnil, Block.split_nil, List.append_nil, Ghash.flush, if_pos h0]
    exact ⟨hk, by simpa using hs, by simpa using hp, h0⟩
  · have hne : Block.rest bytes ≠ [] := by
      intro hnil
      rw [hnil, List.length_nil] at hrest
      omega
    rw [Block.split_of_length_le hne (by omega), Ghash.flush, if_neg h0]
    refine ⟨hk, ?_, ?_, rfl⟩
    · rw [Block.whole_nil, List.append_nil, ofBlocks_push, ← hs, ← hp, hk]
    · rw [Block.rest_nil, Block.ofBytes_nil]

/-- **The hash that comes out**: the sum over all there is, and the
closing block. The stream itself is not closed by it. -/
theorem Holds.digest (h : Holds key done bytes g) (last : Block) :
    g.digest last = ofBlocks key (done ++ Block.split bytes ++ [last]) := by
  have hf := h.flush
  rw [ofBlocks_push, Ghash.digest, hf.sum, h.keyed, Block.whole_nil,
    List.append_nil]

end Strongbox.Ghash
