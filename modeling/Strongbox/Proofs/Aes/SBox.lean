import Strongbox.Aes.SBox
import Strongbox.Proofs.BinaryField

/-!
# The byte field of AES

Read as the coefficients of a polynomial, a byte has a value in the
field of 256 elements, and the operations of `Strongbox.Aes` on bytes
are those of the field: `double` multiplies by the variable, `mul` is
the product, `inverse` the inverse. Since no value is lost by inverting,
and none by the affine map after it, the substitution box sends no two
bytes to the same one.

## Three steps

First the operations on bytes are read bit by bit: what a shift, a mask
and a doubling do to each bit. Then a byte gets a value, the polynomial
of its bits at a root of the modulus, and each operation is seen to be
the one of the ring. Last, the ring is a field, because the modulus is
irreducible; for that some squarings have to be made, and they are made
with bytes, by the operations that have just been shown to be those of
the ring.

With a field at hand, the 254th power is the inverse, since every
element that is not zero has the 255th power one; and an inverse is one
to one. The affine map is undone by another affine map, which is given.
-/

namespace Strongbox.Aes

/-- **The bits of a byte**, the constant term first. An index past the
seventh gives false. -/
def bit (a : UInt8) (i : ℕ) : Bool := a.toBitVec.getLsbD i

/-- A byte is determined by its bits. Equations between bytes are proved
by it. -/
theorem eq_of_bit_eq {a b : UInt8} (h : ∀ i < 8, bit a i = bit b i) : a = b :=
  UInt8.toBitVec_inj.mp (BitVec.eq_of_getLsbD_eq h)

section Bits

variable (a b : UInt8) (i : ℕ)

theorem bit_zero : bit 0 i = false := by
  simp [bit]

theorem bit_xor : bit (a ^^^ b) i = (bit a i ^^ bit b i) := by
  simp [bit]

theorem bit_shiftRight : bit (b >>> 1) i = bit b (i + 1) := by
  simp [bit, Nat.add_comm]

theorem bit_shiftLeft_zero : bit (a <<< 1) 0 = false := by
  simp [bit]

theorem bit_shiftLeft_succ {i : ℕ} (hi : i < 7) :
    bit (a <<< 1) (i + 1) = bit a i := by
  have hin : (a <<< 1).toBitVec.getLsbD (i + 1)
    = (decide (i + 1 < 8) && a.toBitVec.getLsbD i) := by
    simp
  rw [bit, hin, decide_eq_true (Nat.succ_lt_succ hi), Bool.true_and, bit]

theorem bit_and : bit (a &&& b) i = (bit a i && bit b i) := by
  simp [bit]

/-- A mask of one bit looks at this bit. The two masks that occur are
the lowest and the highest bit. -/
theorem and_mask_eq_zero_iff {mask : UInt8} {k : ℕ} (hk : k < 8)
    (hmask : ∀ i < 8, bit mask i = decide (i = k)) :
    a &&& mask = 0 ↔ bit a k = false := by
  constructor
  · intro h
    have hbit := bit_and a mask k
    rwa [h, bit_zero, hmask k hk, decide_eq_true rfl, Bool.and_true, eq_comm]
      at hbit
  · intro h
    refine eq_of_bit_eq fun i hi => ?_
    rw [bit_and, hmask i hi, bit_zero]
    by_cases hik : i = k
    · rw [hik, h, Bool.false_and]
    · rw [decide_eq_false hik, Bool.and_false]

theorem and_one_eq_zero_iff : a &&& 1 = 0 ↔ bit a 0 = false :=
  and_mask_eq_zero_iff a (by decide) (by decide)

theorem and_top_eq_zero_iff : a &&& 0x80 = 0 ↔ bit a 7 = false :=
  and_mask_eq_zero_iff a (by decide) (by decide)

end Bits

/-- The bits of a product with the variable are moved by one; the one
that falls out brings in the modulus. The lowest bit is that of the
modulus, or nothing. -/
theorem bit_double_zero (a : UInt8) :
    bit (double a) 0 = (bit a 7 && bit 0x1b 0) := by
  unfold double
  rw [bit_xor, bit_shiftLeft_zero, Bool.false_xor]
  by_cases h : bit a 7 = false
  · rw [if_pos ((and_top_eq_zero_iff a).mpr h), h, bit_zero, Bool.false_and]
  · rw [if_neg (mt (and_top_eq_zero_iff a).mp h),
      Bool.eq_true_of_not_eq_false h, Bool.true_and]

/-- The other bits come from one place lower, with the bit of the
modulus added if the highest one falls out. -/
theorem bit_double_succ (a : UInt8) {i : ℕ} (hi : i < 7) :
    bit (double a) (i + 1) = (bit a i ^^ (bit a 7 && bit 0x1b (i + 1))) := by
  unfold double
  rw [bit_xor, bit_shiftLeft_succ a hi]
  by_cases h : bit a 7 = false
  · rw [if_pos ((and_top_eq_zero_iff a).mpr h), h, bit_zero, Bool.false_and]
  · rw [if_neg (mt (and_top_eq_zero_iff a).mp h),
      Bool.eq_true_of_not_eq_false h, Bool.true_and]

/-! ## Bytes as values -/

/-- The modulus `x⁸ + x⁴ + x³ + x + 1`. The byte `0x1b` holds its other
coefficients. -/
noncomputable abbrev polynomial : Polynomial (ZMod 2) := modulus 8 (bit 0x1b)

/-- The variable, as a root of the modulus. In the ring of values it is
the value of the byte two. -/
noncomputable abbrev root : AdjoinRoot polynomial := AdjoinRoot.root polynomial

/-- **The value of a byte**: its bits as a polynomial in the root.
Addition and multiplication of values are those of the ring. -/
noncomputable def value (a : UInt8) : AdjoinRoot polynomial :=
  evaluate root 8 (bit a)

/-- A byte is determined by its value: its bits are the coefficients of
a polynomial below the modulus. -/
theorem value_injective : Function.Injective value :=
  fun _ _ h => eq_of_bit_eq (eq_of_evaluate_root_eq h)

theorem value_zero : value 0 = 0 :=
  (evaluate_congr root fun i _ => bit_zero i).trans (evaluate_false root 8)

theorem value_one : value 1 = 1 := by
  have hbits : ∀ i < 7, bit 1 (i + 1) = false := by decide
  show bitValue (bit 1 0) + root * evaluate root 7 _ = 1
  rw [evaluate_congr root hbits, evaluate_false, mul_zero, add_zero]
  rfl

/-- Exclusive or is the addition of values, since two is zero among
them. -/
theorem value_xor (a b : UInt8) : value (a ^^^ b) = value a + value b := by
  unfold value
  rw [← evaluate_xor]
  exact evaluate_congr root fun i _ => bit_xor a b i

/-- Doubling multiplies the value by the root, with the modulus taking
the place of the bit that falls out. -/
theorem value_double (a : UInt8) : value (double a) = root * value a :=
  root_mul_evaluate (bit_double_zero a) fun _ hi => bit_double_succ a hi

theorem value_two : value 2 = root := by
  have htwo : (2 : UInt8) = double 1 := by decide
  rw [htwo, value_double, value_one, mul_one]

/-- **The product is the product of the values.** It is the invariant of
the loop: what has been added up, and the multiples that are still to be
added. -/
theorem value_go (n : ℕ) (a b acc : UInt8) :
    value (mul.go n a b acc)
      = value acc + value a * evaluate root n (bit b) := by
  induction n generalizing a b acc with
  | zero => rw [mul.go, evaluate, mul_zero, add_zero]
  | succ n ih =>
    have htail : evaluate root n (bit (b >>> 1))
      = evaluate root n fun i => bit b (i + 1) :=
      evaluate_congr root fun i _ => bit_shiftRight b i
    have hacc : value (if b &&& 1 = 0 then acc else acc ^^^ a)
        = value acc + bitValue (bit b 0) * value a := by
      by_cases h : bit b 0 = false
      · rw [if_pos ((and_one_eq_zero_iff b).mpr h), h, bitValue_false, zero_mul,
          add_zero]
      · rw [if_neg (mt (and_one_eq_zero_iff b).mp h),
          Bool.eq_true_of_not_eq_false h,
          bitValue_true, one_mul, value_xor]
    rw [mul.go, ih, hacc, htail, value_double, evaluate]
    ring

/-- **The product of bytes** is that of their values. The loop goes
through the bits of one factor and doubles the other. -/
theorem value_mul (a b : UInt8) : value (mul a b) = value a * value b := by
  rw [mul, value_go, value_zero, zero_add]
  rfl

/-- The power of a byte has the power of its value, whatever the chain
by which it is computed. -/
theorem value_power (a : UInt8) (n : ℕ) : value (power a n) = value a ^ n := by
  induction n with
  | zero => rw [power, value_one, pow_zero]
  | succ n ih => rw [power, value_mul, ih, pow_succ']

/-! ## The field -/

/-- **The modulus is irreducible.** The two conditions of the test are
computed with bytes. -/
instance irreducible_polynomial : Fact (Irreducible polynomial) := by
  refine ⟨irreducible_of_frobenius 2 (natDegree_modulus 8 _) ?_ ?_⟩
  · have hround : power 2 256 = 2 := by decide +kernel
    have hvalue := congrArg value hround
    rwa [value_power, value_two] at hvalue
  · have hinverse : mul (power 2 16 ^^^ 2) (inverse (power 2 16 ^^^ 2))
      = 1 := by decide +kernel
    have hunit : root ^ 2 ^ 2 ^ 2 - root = value (power 2 16 ^^^ 2) := by
      rw [value_xor, value_power, value_two, sub_eq_add_neg,
        ZModModule.neg_eq_self]
      rfl
    have hproduct := congrArg value hinverse
    rw [value_mul, value_one, ← hunit] at hproduct
    exact IsUnit.of_mul_eq_one _ hproduct

/-- **The inverse is the inverse of the value.** Zero is sent to zero on
both sides. -/
theorem value_inverse (a : UInt8) : value (inverse a) = (value a)⁻¹ := by
  rw [inverse, value_power]
  by_cases h : value a = 0
  · rw [h, inv_zero, zero_pow (by decide)]
  · have hcard : value a ^ 2 ^ 8 = value a := by
      have hpow := pow_card_of_irreducible (value a)
      rwa [natDegree_modulus] at hpow
    refine eq_inv_of_mul_eq_one_left (mul_right_cancel₀ h ?_)
    rw [one_mul, ← pow_succ, ← pow_succ]
    exact hcard

/-- The 254th power in eleven products. The definition takes two hundred
and fifty-four, which is long for a proof that computes a whole
encryption. -/
def inverseByChain (a : UInt8) : UInt8 :=
  let a2 := mul a a
  let a3 := mul a2 a
  let a6 := mul a3 a3
  let a12 := mul a6 a6
  let a15 := mul a12 a3
  let a30 := mul a15 a15
  let a60 := mul a30 a30
  let a120 := mul a60 a60
  let a240 := mul a120 a120
  mul a240 (mul a12 a2)

/-- Powers may be multiplied in any order, and both are the 254th power
of the same value. -/
theorem inverse_eq_inverseByChain : inverse = inverseByChain := by
  funext a
  refine value_injective ?_
  simp only [inverse, inverseByChain, value_power, value_mul]
  ring

/-- **Inverting loses nothing**: the values are inverted in a field,
where two inverses are equal only if the elements are. -/
theorem inverse_injective : Function.Injective inverse := by
  intro a b h
  have hvalue := congrArg value h
  rw [value_inverse, value_inverse] at hvalue
  exact value_injective (inv_injective hvalue)

/-- The affine map can be undone by another one. That one is given by
its formula and looked at for every byte. -/
theorem affine_injective : Function.Injective affine := by
  have hundone : ∀ i : Fin 256, rotateLeft (affine (UInt8.ofFin i)) 1
      ^^^ rotateLeft (affine (UInt8.ofFin i)) 3
        ^^^ rotateLeft (affine (UInt8.ofFin i)) 6 ^^^ 0x05
          = UInt8.ofFin i := by
    decide +kernel
  intro a b h
  have ha := hundone a.toFin
  have hb := hundone b.toFin
  rw [UInt8.ofFin_toFin] at ha hb
  rw [← ha, h, hb]

/-- **The substitution box loses nothing.** It is the inverse and the
affine map, one after the other. -/
theorem substitute_injective : Function.Injective substitute := by
  intro a b h
  rw [substitute_eq, substitute_eq] at h
  exact inverse_injective (affine_injective h)

end Strongbox.Aes
