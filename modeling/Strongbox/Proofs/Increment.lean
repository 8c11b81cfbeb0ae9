import Mathlib.Data.Nat.ModEq
import Strongbox.Proofs.Bytes
import Strongbox.Block

/-!
# Counting in the last bytes of a block

`Block.increment k` reads the last `k` bytes of a block as a number and
writes the next one. What it does is said by its two halves: the number
goes up by one modulo `256 ^ k` (`low_increment`), and the bytes before
it stay (`take_increment`). Repeating it is therefore adding to the
number (`low_repeat_increment`), and as long as no more is added than
the width can tell apart, no block comes twice
(`eq_of_repeat_increment_eq`) – wherever the counting begins, and
whether or not it passes through zero.

## Why no nonce repeats a block

Two counter blocks that are both counted from one start are told apart
by their numbers as long as fewer are counted than the width has values.
That is what the limits on message lengths are for: they keep the count
below that. Counters from two different starts are another matter, and
are kept apart by the bytes before the number, which counting leaves
alone.

The width `k` is a parameter. One mode counts in four bytes, the other
one in as many as its nonce leaves.
-/

namespace Strongbox.Block

variable {k : Nat} (b : Block)

/-- A counted block is written out exactly: the bytes before the number,
and the number. The number is cut to its width, so that the length is
sixteen again. -/
theorem toBytes_increment (hk : k ≤ 16) :
    (increment k b).toBytes
      = b.toBytes.take (16 - k) ++ Bytes.bigEndian k (low k b + 1) := by
  refine toBytes_ofBytes_of_length ?_
  rw [List.length_append, List.length_take, length_toBytes,
    Bytes.length_bigEndian]
  omega

theorem length_take_toBytes (hk : k ≤ 16) :
    (b.toBytes.take (16 - k)).length = 16 - k := by
  rw [List.length_take, length_toBytes]
  omega

/-- **The number goes up by one**, as far as its width goes. At the end
of its width it comes back to zero. -/
theorem low_increment (hk : k ≤ 16) :
    low k (increment k b) = (low k b + 1) % 256 ^ k := by
  rw [low, toBytes_increment b hk, List.drop_left' (length_take_toBytes b hk),
    Bytes.ofBigEndian_bigEndian]

/-- **The bytes before the number stay.** So the nonce in a counter
block stays what it is. -/
theorem take_increment (hk : k ≤ 16) :
    (increment k b).toBytes.take (16 - k) = b.toBytes.take (16 - k) := by
  rw [toBytes_increment b hk, List.take_left' (length_take_toBytes b hk)]

/-- Counting on adds to the number. Both sides are taken modulo the
width, which is all that a number of that width can tell. -/
theorem low_repeat_increment (hk : k ≤ 16) (i : Nat) :
    low k (Nat.repeat (increment k) i b) % 256 ^ k
      = (low k b + i) % 256 ^ k := by
  induction i with
  | zero => rfl
  | succ i ih =>
    rw [Nat.repeat, low_increment _ hk, Nat.mod_mod, Nat.add_mod, ih,
      ← Nat.add_mod, Nat.add_assoc]

/-- Counting on leaves the bytes before the number. By induction, one
step at a time. -/
theorem take_repeat_increment (hk : k ≤ 16) (i : Nat) :
    (Nat.repeat (increment k) i b).toBytes.take (16 - k)
      = b.toBytes.take (16 - k) := by
  induction i with
  | zero => rfl
  | succ i ih => rw [Nat.repeat, take_increment _ hk, ih]

/-- **No block comes twice** before the number has run through its
width, from wherever the counting began. Two numbers below the width
that are the same modulo the width are the same. -/
theorem eq_of_repeat_increment_eq (hk : k ≤ 16) {i j : Nat} (hi : i < 256 ^ k)
    (hj : j < 256 ^ k)
    (h : Nat.repeat (increment k) i b = Nat.repeat (increment k) j b) :
    i = j := by
  have hlow : (low k b + i) % 256 ^ k = (low k b + j) % 256 ^ k := by
    rw [← low_repeat_increment b hk, ← low_repeat_increment b hk, h]
  -- Where the counting began falls out of the congruence.
  have hmod : i ≡ j [MOD 256 ^ k] := Nat.ModEq.add_left_cancel' _ hlow
  exact hmod.eq_of_lt_of_lt hi hj

end Strongbox.Block
