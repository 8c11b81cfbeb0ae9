import Strongbox.Ghash
import Strongbox.Proofs.BinaryField
import Strongbox.Proofs.WholeBlocks

/-!
# The field of 2¹²⁸ elements

`Field128.mul` shifts, masks and adds machine words. This module says
what it computes: read as bits (`Field128.bit`) and the bits as the
coefficients of a polynomial (`Field128.value`), it is the product
modulo `x¹²⁸ + x⁷ + x² + x + 1` (`value_mul`).

That modulus is irreducible, so the values form a field and a factor
that is not zero can be cancelled (`mul_right_cancel`). For the hash
built on this product it means that a key which is not zero loses
nothing (`Block.mul_left_injective`). The evidence for irreducibility is
computed by `mul` itself: it squares the variable 128 times and finds it
again, and 64 times and finds something else.

## Masks and branches

The product is written without a branch. A mask that is all ones or all
zeros is made of the bit in question, and what is masked is added in any
case. `timesX` and `go_succ` say the same with a branch on the bit,
which is the form in which one step can be read; `mask_and` is the whole
difference between the two.

## Bits

A field element has its constant term in the highest bit of its first
word, so that a bit is looked up from the most significant end
(`getMsbD`), and a shift to the right is a multiplication. The lemmas
about single words are what shifts and masks do to bits from that end;
those about `bit` put the two words together.
-/

namespace Strongbox

namespace Field128

/-! ## Words as bits -/

section Words

variable (w : UInt64) (i : ℕ)

/-- Shifting to the left brings every bit one place nearer to the front,
where the first bit is lost. -/
theorem getMsbD_shiftLeft_one :
    (w <<< 1).toBitVec.getMsbD i = w.toBitVec.getMsbD (i + 1) := by
  simp

/-- Shifting to the right takes every bit one place away from it, and a
zero comes in. -/
theorem getMsbD_shiftRight_one (hi : i < 64) :
    (w >>> 1).toBitVec.getMsbD i
      = (decide (i ≠ 0) && w.toBitVec.getMsbD (i - 1)) := by
  simp [BitVec.getMsbD_ushiftRight, hi]

/-- Shifting to the left by all places but one leaves the last bit, at
the front. -/
theorem getMsbD_shiftLeft_top (hi : i < 64) :
    (w <<< 63).toBitVec.getMsbD i
      = (decide (i = 0) && w.toBitVec.getMsbD 63) := by
  cases i with
  | zero => simp
  | succ i => simp

/-- Shifting to the right by all places but one leaves the first bit, at
the end. -/
theorem getMsbD_shiftRight_top (hi : i < 64) :
    (w >>> 63).toBitVec.getMsbD i
      = (decide (i = 63) && w.toBitVec.getMsbD 0) := by
  rcases Nat.lt_or_eq_of_le (Nat.le_of_lt_succ hi) with h | rfl
  · simp [BitVec.getMsbD_ushiftRight, h, Nat.ne_of_lt h]
  · simp [BitVec.getMsbD_ushiftRight]

/-- A word with no bit but the last is one or zero. It is what a shift
by all places but one leaves. -/
theorem eq_ite_of_getMsbD {w : UInt64} {b : Bool}
    (h : ∀ i < 64, w.toBitVec.getMsbD i = (decide (i = 63) && b)) :
    w = if b then 1 else 0 := by
  refine UInt64.toBitVec_inj.mp (BitVec.eq_of_getMsbD_eq fun i hi => ?_)
  have hlast : 63 - i = 0 ↔ i = 63 := by omega
  rw [h i hi, BitVec.getMsbD_eq_getLsbD]
  cases b <;> simp [hi, hlast]

/-- A mask of ones or of zeros selects a word or nothing. Zero less one
is a word of ones. -/
theorem mask_and (b : Bool) :
    (0 - if b then 1 else 0 : UInt64) &&& w = if b then w else 0 := by
  cases b <;> simp

end Words

/-- **The bits of a field element**, the constant term first. The first
word has the first 64 of them. -/
def bit (a : Field128) (i : ℕ) : Bool :=
  if i < 64 then a.hi.toBitVec.getMsbD i else a.lo.toBitVec.getMsbD (i - 64)

/-- A field element is determined by its bits. Equations between field
elements are proved by it. -/
theorem eq_of_bit_eq {a b : Field128} (h : ∀ i < 128, a.bit i = b.bit i) :
    a = b := by
  obtain ⟨ahi, alo⟩ := a
  obtain ⟨bhi, blo⟩ := b
  have hhi : ahi = bhi := by
    refine UInt64.toBitVec_inj.mp (BitVec.eq_of_getMsbD_eq fun i hi => ?_)
    have hbit := h i (by omega)
    unfold bit at hbit
    rwa [if_pos hi, if_pos hi] at hbit
  have hlo : alo = blo := by
    refine UInt64.toBitVec_inj.mp (BitVec.eq_of_getMsbD_eq fun i hi => ?_)
    have hbit := h (64 + i) (by omega)
    unfold bit at hbit
    rwa [if_neg (by omega), if_neg (by omega), Nat.add_sub_cancel_left] at hbit
  rw [hhi, hlo]

/-! ## The steps of the product -/

/-- The zero of the field. It is the sum of no block, and the one hash
key under which everything is lost. -/
def zero : Field128 := ⟨0, 0⟩

/-- The one of the field. Its bit is the first one, that of the constant
term, which is the highest of the first word. -/
def one : Field128 := ⟨0x8000000000000000, 0⟩

/-- The variable. Its bit is the second one, and multiplying by it is
one step of the loop. -/
def x : Field128 := ⟨0x4000000000000000, 0⟩

/-- The sum of two field elements. It is the exclusive or of both words,
since two is zero in the field. -/
def add (a b : Field128) : Field128 := ⟨a.hi ^^^ b.hi, a.lo ^^^ b.lo⟩

/-- The bits after the first one. They are what the loop goes on with
when the first bit has been used, with a zero coming in at the end. -/
def tail (a : Field128) : Field128 :=
  ⟨(a.hi <<< 1) ||| (a.lo >>> 63), a.lo <<< 1⟩

/-- The bits behind a zero, without the last one. The last one falls
out, and stands for the power that the modulus replaces. -/
def shifted (a : Field128) : Field128 :=
  ⟨a.hi >>> 1, (a.lo >>> 1) ||| (a.hi <<< 63)⟩

/-- What the modulus makes of the power that falls out of a shift. It is
the modulus without its highest power: the bits of `1 + x + x² + x⁷`. -/
def reduction : Field128 := ⟨0xe100000000000000, 0⟩

/-- **The product with the variable.** What falls out of the shift is
the highest power, if there is one, and is replaced by what the modulus
makes of it. -/
def timesX (a : Field128) : Field128 :=
  if a.bit 127 then a.shifted.add reduction else a.shifted

section Bits

variable (a b : Field128)

/-- No bit of the zero is set. It is where a sum of shifted words
begins. -/
theorem bit_zero (i : ℕ) : zero.bit i = false := by
  unfold bit zero
  split <;> simp

/-- A bit of a sum is the exclusive or of the two bits, in either half
of the word. -/
theorem bit_add (i : ℕ) : (a.add b).bit i = (a.bit i ^^ b.bit i) := by
  unfold bit add
  split <;> simp

/-- The bits of the tail are those of the element from the second one
on, a zero behind them. -/
theorem bit_tail {i : ℕ} (hi : i < 128) : a.tail.bit i = a.bit (i + 1) := by
  unfold bit tail
  rw [UInt64.toBitVec_or, BitVec.getMsbD_or, getMsbD_shiftLeft_one,
    getMsbD_shiftLeft_one]
  rcases Nat.lt_trichotomy i 63 with h | rfl | h
  · rw [if_pos (by omega), if_pos (by omega),
      getMsbD_shiftRight_top _ _ (by omega)]
    simp [Nat.ne_of_lt h]
  · simp
  · rw [if_neg (by omega), if_neg (by omega), Nat.sub_add_comm (by omega)]

/-- The first bit of what has been shifted is the zero that came in. -/
theorem bit_shifted_zero : a.shifted.bit 0 = false := by
  unfold bit shifted
  rw [if_pos (by decide), getMsbD_shiftRight_one _ _ (by decide)]
  rfl

/-- The others come from one place before; the word boundary is one
place like any other. -/
theorem bit_shifted_succ {i : ℕ} (hi : i < 127) :
    a.shifted.bit (i + 1) = a.bit i := by
  unfold bit shifted
  rcases Nat.lt_trichotomy i 63 with h | rfl | h
  · rw [if_pos (by omega), if_pos (by omega),
      getMsbD_shiftRight_one _ _ (by omega)]
    simp
  · simp
  · rw [if_neg (by omega), if_neg (by omega), UInt64.toBitVec_or,
      BitVec.getMsbD_or,
      getMsbD_shiftRight_one _ _ (by omega),
      getMsbD_shiftLeft_top _ _ (by omega),
      decide_eq_true (by omega), decide_eq_false (by omega), Bool.true_and,
      Bool.false_and,
      Bool.or_false, Nat.sub_right_comm, Nat.add_sub_cancel]

/-- The bits of a product with the variable are moved by one; the one
that falls out brings in the reduction. The first bit is that of the
reduction, or nothing. -/
theorem bit_timesX_zero : a.timesX.bit 0 = (a.bit 127 && reduction.bit 0) := by
  unfold timesX
  split
  · next h => rw [bit_add, bit_shifted_zero, h, Bool.false_xor, Bool.true_and]
  · next h => rw [bit_shifted_zero, Bool.eq_false_iff.mpr h, Bool.false_and]

/-- The other bits come from one place before, with those of the
reduction added if the last one has fallen out. -/
theorem bit_timesX_succ {i : ℕ} (hi : i < 127) :
    a.timesX.bit (i + 1)
      = (a.bit i ^^ (a.bit 127 && reduction.bit (i + 1))) := by
  unfold timesX
  split
  · next h => rw [bit_add, bit_shifted_succ a hi, h, Bool.true_and]
  · next h =>
      rw [bit_shifted_succ a hi, Bool.eq_false_iff.mpr h, Bool.false_and,
        Bool.xor_false]

/-- The first bit, alone in a word, as the loop finds it. It decides
whether the shifted word is added to the product. -/
theorem hi_shiftRight : a.hi >>> 63 = if a.bit 0 then 1 else 0 :=
  eq_ite_of_getMsbD fun i hi => getMsbD_shiftRight_top a.hi i hi

/-- The last bit, alone in a word, as the loop finds it. It is the one
that a shift drops and the modulus answers for. -/
theorem lo_and_one : a.lo &&& 1 = if a.bit 127 then 1 else 0 := by
  refine eq_ite_of_getMsbD fun i hi => ?_
  have hone : (1 : UInt64).toBitVec.getMsbD i = decide (i = 63) := by
    have hlast : 63 - i = 0 ↔ i = 63 := by omega
    rw [BitVec.getMsbD_eq_getLsbD]
    simp [hi, hlast]
  rw [UInt64.toBitVec_and, BitVec.getMsbD_and, hone, Bool.and_comm]
  by_cases h : i = 63
  · rw [h]
    rfl
  · rw [decide_eq_false h, Bool.false_and, Bool.false_and]

end Bits

/-- **One step of the product**: the first bit of the first factor
selects what is added, and the second factor is multiplied by the
variable. It is the loop with its masks read as branches. -/
theorem go_succ (n : ℕ) (a b sum : Field128) :
    mul.go (n + 1) a.hi a.lo b.hi b.lo sum.hi sum.lo
      = mul.go n a.tail.hi a.tail.lo b.timesX.hi b.timesX.lo
          (if a.bit 0 then sum.add b else sum).hi
            (if a.bit 0 then sum.add b else sum).lo := by
  have htimes : b.timesX
    = ⟨(b.hi >>> 1) ^^^ (if b.bit 127 then 0xe100000000000000 else 0),
      (b.lo >>> 1) ||| (b.hi <<< 63)⟩ := by
    unfold timesX
    split <;> simp [shifted, add, reduction]
  have hsum : (if a.bit 0 then sum.add b else sum)
      = ⟨sum.hi ^^^ (if a.bit 0 then b.hi else 0),
        sum.lo ^^^ (if a.bit 0 then b.lo else 0)⟩ := by
    split <;> simp [add]
  rw [mul.go, hi_shiftRight, lo_and_one]
  simp only [mask_and]
  rw [htimes, hsum]
  rfl

/-! ## Words as values -/

/-- The modulus `x¹²⁸ + x⁷ + x² + x + 1`, its low bits being those of
`reduction`. It is the modulus that the mode prescribes. -/
noncomputable abbrev polynomial : Polynomial (ZMod 2) :=
  modulus 128 reduction.bit

/-- The variable, as a root of the modulus. Multiplying by it is
shifting. -/
noncomputable abbrev root : AdjoinRoot polynomial := AdjoinRoot.root polynomial

/-- **The value of a field element**: its bits as a polynomial in the
root. The sum and the product of values are those of the ring. -/
noncomputable def value (a : Field128) : AdjoinRoot polynomial :=
  evaluate root 128 a.bit

/-- A field element is determined by its value, since the bits are the
coefficients of a polynomial below the modulus. -/
theorem value_injective : Function.Injective value :=
  fun _ _ h => eq_of_bit_eq (eq_of_evaluate_root_eq h)

theorem value_zero : value zero = 0 :=
  (evaluate_congr root fun i _ => bit_zero i).trans (evaluate_false root 128)

theorem value_one : value one = 1 := by
  have hbits : ∀ i < 127, one.bit (i + 1) = false := by decide
  show bitValue (one.bit 0) + root * evaluate root 127 _ = 1
  rw [evaluate_congr root hbits, evaluate_false, mul_zero, add_zero]
  rfl

/-- The value of a sum is the sum of the values: exclusive or is
addition in a ring in which two is zero. -/
theorem value_add (a b : Field128) : value (a.add b) = value a + value b := by
  unfold value
  rw [← evaluate_xor]
  exact evaluate_congr root fun i _ => bit_add a b i

/-- Shifting multiplies the value by the root. What falls out of the
shift is the one power that the modulus has to replace. -/
theorem value_timesX (a : Field128) : value a.timesX = root * value a :=
  root_mul_evaluate (bit_timesX_zero a) fun _ hi => bit_timesX_succ a hi

/-- The value of the variable is the root that was adjoined to the
field. -/
theorem value_x : value x = root := by
  have hx : x = one.timesX := by decide
  rw [hx, value_timesX, value_one, mul_one]

/-- **The product is the product of the values.** The sum so far and the
second factor carry it from bit to bit of the first. At the beginning
the sum is zero and there are 128 bits to go. -/
theorem value_go {n : ℕ} (hn : n ≤ 128) (a b sum : Field128) :
    value (mul.go n a.hi a.lo b.hi b.lo sum.hi sum.lo)
      = value sum + evaluate root n a.bit * value b := by
  induction n generalizing a b sum with
  | zero =>
    rw [mul.go, evaluate, zero_mul, add_zero]
  | succ n ih =>
    have htail : evaluate root n a.tail.bit
      = evaluate root n fun i => a.bit (i + 1) :=
      evaluate_congr root fun i hi => bit_tail a (by omega)
    have hsum : value (if a.bit 0 then sum.add b else sum)
        = value sum + bitValue (a.bit 0) * value b := by
      cases a.bit 0
      · rw [bitValue_false, zero_mul, add_zero]
        rfl
      · rw [bitValue_true, one_mul]
        exact value_add sum b
    rw [go_succ, ih (by omega), hsum, htail, value_timesX, evaluate]
    ring

/-- **The product of field elements** is that of their values: the loop
has gone through all bits of the first factor. -/
theorem value_mul (a b : Field128) : value (a.mul b) = value a * value b := by
  have h := value_go (Nat.le_refl 128) a b zero
  rwa [value_zero, zero_add] at h

/-! ## The field -/

/-- Squaring a number of times. So many squarings make a power of two as
exponent, which is what the test for irreducibility asks for. -/
def squared (a : Field128) : (n : ℕ) → Field128
  | 0 => a
  | n + 1 => (a.squared n).mul (a.squared n)

/-- Each squaring doubles the exponent of the root, or of any other
value. -/
theorem value_squared (a : Field128) (n : ℕ) :
    value (a.squared n) = value a ^ 2 ^ n := by
  induction n with
  | zero => rw [squared, pow_zero, pow_one]
  | succ n ih => rw [squared, value_mul, ih, ← pow_two, ← pow_mul, ← pow_succ]

/-- The variable after 64 squarings. It is written out, so that it has
to be computed only once. -/
def half : Field128 := ⟨0x6f9945a9e519a722, 0x9d4c1ad657f8a686⟩

/-- Half of the squarings of the test, made by the product itself, so
that the kernel computes with machine words and not with polynomials. -/
theorem squared_x : x.squared 64 = half := by decide +kernel

/-- The other half of them, which lead back to the variable: the first
of the two conditions of the test. -/
theorem squared_half : half.squared 64 = x := by decide +kernel

/-- **The modulus is irreducible.** This is Rabin's test, with the
squarings and one inverse computed. -/
instance irreducible_polynomial : Fact (Irreducible polynomial) := by
  refine ⟨irreducible_of_frobenius 6 (natDegree_modulus 128 _) ?_ ?_⟩
  · have hround : root ^ 2 ^ (64 + 64) = root := by
      rw [pow_add, pow_mul, ← value_x, ← value_squared, squared_x,
        ← value_squared, squared_half]
    exact hround
  · -- What comes of half the squarings differs from the variable by something
    -- with an inverse.
    have hinverse : (half.add x).mul ⟨0x180da934bf531582, 0x51c13dbb149f5279⟩
      = one := by
      decide +kernel
    have hunit : root ^ 2 ^ 64 - root = value (half.add x) := by
      rw [← value_x, ← value_squared, squared_x, value_add, sub_eq_add_neg,
        ZModModule.neg_eq_self]
    have hproduct := congrArg value hinverse
    rw [value_mul, value_one, ← hunit] at hproduct
    exact IsUnit.of_mul_eq_one _ hproduct

/-- **A factor that is not zero can be cancelled.** The value of the
factor is not zero, and a field has no divisors of zero. -/
theorem mul_right_cancel {a b c : Field128} (hc : c ≠ zero)
    (h : a.mul c = b.mul c) : a = b := by
  have hvalue : value c ≠ 0 :=
    fun h0 => hc (value_injective (h0.trans value_zero.symm))
  have hproduct := congrArg value h
  rw [value_mul, value_mul] at hproduct
  exact value_injective (mul_right_cancel₀ hvalue hproduct)

/-! ## Blocks as field elements -/

/-- The bytes of a word, the highest first. They are half of the bytes
of a block. -/
def bytes (w : UInt64) : Bytes :=
  [(w >>> 56).toUInt8, (w >>> 48).toUInt8, (w >>> 40).toUInt8,
    (w >>> 32).toUInt8,
    (w >>> 24).toUInt8, (w >>> 16).toUInt8, (w >>> 8).toUInt8, w.toUInt8]

/-- A word is put together from its bytes. It undoes the reading of a
block. -/
theorem bytes_word (a b c d e f g h : UInt8) :
    bytes (word a b c d e f g h) = [a, b, c, d, e, f, g, h] := by
  unfold bytes
  congr <;>
  · refine UInt8.toBitVec_inj.mp (BitVec.eq_of_getLsbD_eq fun i hi => ?_)
    simp (disch := omega)
      [word, BitVec.getLsbD_of_ge, decide_eq_true, decide_eq_false]

/-- A word is determined by its bytes, which are all of its bits. -/
theorem bytes_injective : Function.Injective bytes := by
  intro w v h
  -- Each byte is the quotient by its place, so that the bytes are the digits.
  simp only [bytes, List.cons.injEq, ← UInt8.toNat_inj, UInt64.toNat_toUInt8,
    UInt64.toNat_shiftRight, UInt64.reduceToNat, Nat.reduceMod,
    Nat.shiftRight_eq_div_pow,
    Nat.reducePow, and_true] at h
  have hw := w.toNat_lt
  have hv := v.toNat_lt
  refine UInt64.toNat_inj.mp ?_
  omega

theorem toBytes_toBlock (a : Field128) :
    a.toBlock.toBytes = bytes a.hi ++ bytes a.lo := rfl

/-- A field element is determined by the block that it makes, word by
word. -/
theorem toBlock_injective : Function.Injective toBlock := by
  intro a b h
  have hbytes := congrArg Block.toBytes h
  rw [toBytes_toBlock, toBytes_toBlock] at hbytes
  obtain ⟨hhi, hlo⟩ := List.append_inj hbytes rfl
  obtain ⟨ahi, alo⟩ := a
  obtain ⟨bhi, blo⟩ := b
  exact congrArg₂ Field128.mk (bytes_injective hhi) (bytes_injective hlo)

/-- A block that is read as a field element is written back as it was.
The bytes keep their order. -/
theorem toBlock_ofBlock (b : Block) : (ofBlock b).toBlock = b := by
  refine Vector.toList_inj.mp ((toBytes_toBlock _).trans ?_)
  unfold ofBlock
  rw [bytes_word, bytes_word]
  exact b.map_byte_range

end Field128

/-- **The hash loses nothing under a key that is not zero**: products
with it differ if the other factors do. This is where it is used that
the modulus is irreducible. -/
theorem Block.mul_left_injective {key : Block} (hkey : key ≠ zero) :
    Function.Injective fun b : Block => b.mul key := by
  intro a b h
  have hofBlock : Function.Injective Field128.ofBlock :=
    Function.LeftInverse.injective Field128.toBlock_ofBlock
  have hkey' : Field128.ofBlock key ≠ Field128.zero := fun h0 =>
    hkey (hofBlock
        (h0.trans (show Field128.zero = Field128.ofBlock zero by decide)))
  exact hofBlock
    (Field128.mul_right_cancel hkey' (Field128.toBlock_injective h))

end Strongbox
