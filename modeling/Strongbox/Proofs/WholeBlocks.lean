import Strongbox.Block

/-!
# Whole blocks and what is left of them

A machine that is fed bytes and works on blocks has, after any number of
bytes, finished some blocks and begun another. `Block.whole` is what it
has finished and `Block.rest` what it has begun: the two halves in which
`Ghash` and `CbcMac` both keep a byte string.

`push_of_lt` and `push_of_eq` say what one more byte does to the two,
and `split_eq` that a byte string cut into blocks is its whole blocks,
and the rest of it filled up with zeros where there is one. Nothing here
depends on what is done with the blocks.

## One byte at a time

Both machines of this library take in bytes one at a time, and so what
has to be known is what one more byte does. There are two cases. As long
as the block under way is not full, the byte joins the rest. The byte
that fills it makes it a whole block, and there is no rest. Both lemmas
say what becomes of the two halves and leave it to the machine what it
makes of them: one adds the byte to a block of its own, the other one to
a value that is there already.

`ofBytes_push` and `xor_ofBytes_push` are the same step for the two ways
in which a machine keeps the rest.

## Closing

At the end of a part, the rest is filled up with zeros and becomes the
last block. That is `split_eq`, by which a statement about bytes becomes
one about the blocks of a standard.
-/

namespace Strongbox.Block

/-- The end of a byte string that does not fill a block. It has less
than sixteen bytes, and none at a block boundary. -/
def rest (bytes : Bytes) : Bytes := bytes.drop (16 * (bytes.length / 16))

/-- **The whole blocks of a byte string.** Each of them has all of its
sixteen bytes from the string. -/
def whole (bytes : Bytes) : List Block :=
  split (bytes.take (16 * (bytes.length / 16)))

@[simp] theorem rest_nil : rest [] = [] := rfl

@[simp] theorem whole_nil : whole [] = [] := split_nil

@[simp] theorem length_rest (bytes : Bytes) :
    (rest bytes).length = bytes.length % 16 := by
  rw [rest, List.length_drop]
  omega

/-! ## Bytes of a block -/

/-- A byte of a block is read off the byte string it was written from,
and is zero past its end. This is what blocks are compared by. -/
theorem getElem_ofBytes (bytes : Bytes) (i : Nat) (h : i < 16) :
    (ofBytes bytes)[i] = bytes.getD i 0 := by
  have hz : (Bytes.zeros 16).getD (i - bytes.length) 0 = 0 := by
    rw [List.getD_eq_getElem?_getD, Bytes.zeros, List.getElem?_replicate]
    split <;> rfl
  have ht : (ofBytes bytes)[i]
    = ((bytes.take 16 ++ Bytes.zeros 16).take 16).getD i 0 := by
    rw [List.getD_eq_getElem?_getD, List.getElem?_eq_getElem (by simp; omega)]
    rfl
  rw [ht, List.getD_eq_getElem?_getD, List.getElem?_take_of_lt h]
  by_cases hi : i < bytes.length
  · rw [List.getElem?_append_left (by simp; omega), List.getElem?_take_of_lt h,
      List.getD_eq_getElem?_getD]
  · have hlen : (bytes.take 16).length = bytes.length := by simp; omega
    rw [List.getElem?_append_right (by omega), hlen,
      ← List.getD_eq_getElem?_getD, hz,
      List.getD_eq_getElem?_getD, List.getElem?_eq_none (by omega)]
    rfl

theorem getElem_xor (a b : Block) (i : Nat) (h : i < 16) :
    (a.xor b)[i] = a[i] ^^^ b[i] := by
  simp [xor]

@[simp] theorem getElem_zero (i : Nat) (h : i < 16) : zero[i] = 0 := by
  simp [zero]

/-- The empty byte string is written as zeros. The rest at a block
boundary is therefore the zero block. -/
@[simp] theorem ofBytes_nil : ofBytes [] = zero := by
  ext i h
  rw [getElem_ofBytes, getElem_zero]
  rfl

@[simp] theorem xor_zero (a : Block) : a.xor zero = a := by
  ext i h
  rw [getElem_xor, getElem_zero, UInt8.xor_zero]

/-- Byte `i` of a byte string with one more byte at its end. It is the
new byte at the end, and what was there before it. -/
theorem getD_push (bytes : Bytes) (byte : UInt8) (i : Nat) :
    (bytes ++ [byte]).getD i 0 = if bytes.length = i then byte
    else bytes.getD i 0 := by
  rw [List.getD_eq_getElem?_getD, List.getD_eq_getElem?_getD]
  split
  · next h => rw [← h, List.getElem?_concat_length]; rfl
  · next h =>
    rcases Nat.lt_or_gt_of_ne h with hlt | hgt
    · rw [List.getElem?_eq_none (by simp; omega),
        List.getElem?_eq_none (by omega)]
    · rw [List.getElem?_append_left hgt]

/-- The bytes of a block, one by one. So a block may be taken apart by
index and put together again. -/
theorem map_byte_range (b : Block) :
    (List.range 16).map b.byte = b.toBytes := by
  refine List.ext_getElem (by simp) fun i hi hi' => ?_
  have hlt : i < 16 := by simpa using hi
  simp [byte, toBytes, hlt]

/-- The next byte of a block under way is written behind the ones before
it. Behind it there are zeros, as before. -/
theorem ofBytes_push (bytes : Bytes) (byte : UInt8) (h : bytes.length < 16) :
    ofBytes (bytes ++ [byte]) = (ofBytes bytes).set bytes.length byte := by
  ext i hi
  rw [getElem_ofBytes, Vector.getElem_set, getElem_ofBytes, getD_push]

/-- The next byte of a block under way is added to the same block as the
ones before it. A chain can take its bytes one by one for this reason. -/
theorem xor_ofBytes_push (a : Block) (bytes : Bytes) (byte : UInt8)
    (h : bytes.length < 16) :
    a.xor (ofBytes (bytes ++ [byte]))
      = (a.xor (ofBytes bytes)).set bytes.length
          ((a.xor (ofBytes bytes))[bytes.length] ^^^ byte) := by
  ext i hi
  rw [getElem_xor, getElem_ofBytes, getD_push, Vector.getElem_set]
  split
  · next heq =>
    subst heq
    have hnone : bytes.getD bytes.length 0 = 0 := by
      rw [List.getD_eq_getElem?_getD, List.getElem?_eq_none (Nat.le_refl _)]
      rfl
    rw [getElem_xor, getElem_ofBytes, hnone, UInt8.xor_zero]
  · rw [getElem_xor, getElem_ofBytes]

/-! ## Cutting -/

/-- A block is written from its first sixteen bytes. What stands behind
them is in other blocks. -/
theorem ofBytes_append_of_le (a b : Bytes) (h : 16 ≤ a.length) :
    ofBytes (a ++ b) = ofBytes a := by
  ext i hi
  rw [getElem_ofBytes, getElem_ofBytes, List.getD_eq_getElem?_getD,
    List.getD_eq_getElem?_getD,
    List.getElem?_append_left (by omega)]

/-- What does not fill a block is one block. It may have all sixteen
bytes, or less. -/
theorem split_of_length_le {bytes : Bytes} (hne : bytes ≠ [])
    (h : bytes.length ≤ 16) :
    split bytes = [ofBytes bytes] := by
  rw [split_of_ne_nil hne, List.drop_of_length_le h, split_nil]

/-- **Cutting at a block boundary makes no difference.** The first part
must end at one, or its last block would be filled up. -/
theorem split_append (a b : Bytes) (h : 16 ∣ a.length) :
    split (a ++ b) = split a ++ split b := by
  by_cases hne : a = []
  · subst hne
    simp
  · have hpos : 0 < a.length := List.length_pos_iff.mpr hne
    have hle : 16 ≤ a.length := Nat.le_of_dvd hpos h
    have hdrop : 16 ∣ (a.drop 16).length := by
      rw [List.length_drop]
      exact Nat.dvd_sub h (Nat.dvd_refl 16)
    rw [split_of_ne_nil (by simp [hne]), split_of_ne_nil hne,
      ofBytes_append_of_le a b hle,
      List.drop_append_of_le_length hle, split_append (a.drop 16) b hdrop,
      List.cons_append]
termination_by a.length
decreasing_by
  rw [List.length_drop]
  omega

/-- **The bytes of all blocks are the byte string filled up with
zeros.** So two strings have the same blocks exactly if they are the
same when they have been filled up. -/
theorem flatMap_toBytes_split (bytes : Bytes) :
    (split bytes).flatMap toBytes = padded bytes := by
  by_cases hne : bytes = []
  · subst hne
    rw [split_nil]
    rfl
  · have hpos : 0 < bytes.length := List.length_pos_iff.mpr hne
    have ih := flatMap_toBytes_split (bytes.drop 16)
    rw [split_of_ne_nil hne, List.flatMap_cons, ih, toBytes_ofBytes]
    unfold padded
    rw [List.length_drop]
    obtain hfull | hpart := Nat.le_total 16 bytes.length
    · have hfirst : (bytes.take 16).length = 16 := List.length_take_of_le hfull
      have hzeros : (16 - (bytes.length - 16) % 16) % 16
        = (16 - bytes.length % 16) % 16 := by omega
      rw [List.take_left' hfirst, hzeros, ← List.append_assoc,
        List.take_append_drop]
    · -- The last block has its zeros from `ofBytes`, and nothing follows.
      have hrest : (16 - (bytes.length - 16) % 16) % 16 = 0 := by omega
      have hzeros : min (16 - bytes.length) 16
        = (16 - bytes.length % 16) % 16 := by omega
      rw [hrest, List.drop_of_length_le hpart, List.take_of_length_le hpart,
        List.take_append,
        List.take_of_length_le hpart, Bytes.zeros, List.take_replicate, hzeros]
      exact List.append_nil _
termination_by bytes.length
decreasing_by
  rw [List.length_drop]
  omega

/-- The bytes of the whole blocks fill them. This is what makes cutting
there a cut at a boundary. -/
theorem dvd_length_take (bytes : Bytes) :
    16 ∣ (bytes.take (16 * (bytes.length / 16))).length := by
  rw [List.length_take, Nat.min_eq_left (Nat.mul_div_le _ _)]
  exact Nat.dvd_mul_right _ _

/-- **A byte string cut into blocks** is its whole blocks and what is
left. If there is no rest, there is no block for it. -/
theorem split_eq (bytes : Bytes) :
    split bytes = whole bytes ++ split (rest bytes) := by
  rw [whole, rest, ← split_append _ _ (dvd_length_take bytes),
    List.take_append_drop]

/-! ## One more byte -/

/-- As long as the block under way is not filled, the whole blocks are
the same and the rest is one byte longer. The machine has no block to
finish. -/
theorem push_of_lt (bytes : Bytes) (byte : UInt8) (h : bytes.length % 16 < 15) :
    whole (bytes ++ [byte]) = whole bytes
      ∧ rest (bytes ++ [byte]) = rest bytes ++ [byte] := by
  have hq : (bytes ++ [byte]).length / 16 = bytes.length / 16 := by
    rw [List.length_append, List.length_singleton]
    omega
  have hle : 16 * (bytes.length / 16) ≤ bytes.length := Nat.mul_div_le _ _
  constructor
  · rw [whole, whole, hq, List.take_append_of_le_length hle]
  · rw [rest, rest, hq, List.drop_append_of_le_length hle]

/-- The byte that fills the block under way makes it a whole one and
leaves no rest. The block is the rest so far and the byte behind it. -/
theorem push_of_eq (bytes : Bytes) (byte : UInt8) (h : bytes.length % 16 = 15) :
    whole (bytes ++ [byte]) = whole bytes ++ [ofBytes (rest bytes ++ [byte])]
      ∧ rest (bytes ++ [byte]) = [] := by
  have hlen : (bytes ++ [byte]).length = bytes.length + 1 := by simp
  have hall : 16 * ((bytes ++ [byte]).length / 16)
    = (bytes ++ [byte]).length := by omega
  have hcut : bytes ++ [byte]
      = bytes.take (16 * (bytes.length / 16)) ++ (rest bytes ++ [byte]) := by
    rw [rest, ← List.append_assoc, List.take_append_drop]
  have hne : rest bytes ++ [byte] ≠ [] := by simp
  have hfull : (rest bytes ++ [byte]).length ≤ 16 := by
    rw [List.length_append, length_rest, List.length_singleton]
    omega
  constructor
  · rw [whole, hall, List.take_length, hcut,
      split_append _ _ (dvd_length_take bytes),
      split_of_length_le hne hfull]
    rfl
  · rw [rest, hall, List.drop_length]

end Strongbox.Block
