import Mathlib.Algebra.Module.ZMod
import Mathlib.FieldTheory.Finite.Extension

/-!
# Bits as elements of a field

Both ciphers and hashes of this library compute with words whose bits
are the coefficients of a polynomial over the field of two elements,
reduced modulo some polynomial. `evaluate` reads such bits: it puts an
element of a ring for the variable. What is true of the words is true of
their values – exclusive or is addition (`evaluate_xor`), a shift is
multiplication by the variable (`root_mul_evaluate`) – and if the
variable is adjoined as a root of the modulus, the value determines the
bits (`eq_of_evaluate_root_eq`).

Whether the values then form a field depends on the modulus.
`irreducible_of_frobenius` is Rabin's test for moduli whose degree is a
power of two: squaring the root so often that the degree is reached
comes back to the root, and half as often does not. It leaves to be
checked some squarings, which the words themselves can do.

## Two uses

The byte field of AES has the modulus `x⁸ + x⁴ + x³ + x + 1` and the
field of the hash `x¹²⁸ + x⁷ + x² + x + 1`. Their words are read in
opposite directions, one from its lowest bit and the other one from its
highest, and so nothing here speaks of words: bits are a function from
numbers to truth values, with the constant term first, and each field
gives its own reading.

What is asked of a word is one equation for each of its operations. The
doubling of a byte and the shift of a block are both brought into the
form of `root_mul_evaluate`, in which the bit that falls out brings in
the bits of the modulus.
-/

open Polynomial

namespace Strongbox

section Evaluate

variable {R S : Type} [CommSemiring R] [CommSemiring S]

/-- The value of a bit, zero or one. It makes sense in any ring, and is
used for polynomials and for their residues. -/
def bitValue (b : Bool) : R := if b then 1 else 0

@[simp] theorem bitValue_false : (bitValue false : R) = 0 := rfl

@[simp] theorem bitValue_true : (bitValue true : R) = 1 := rfl

/-- **The value of the first `n` bits** at an element of a ring, the
constant term first. It is Horner's rule, from the constant term on. -/
def evaluate (r : R) : (n : ℕ) → (bits : ℕ → Bool) → R
  | 0, _ => 0
  | n + 1, bits => bitValue (bits 0) + r * evaluate r n fun i => bits (i + 1)

/-- Only the first `n` bits count. By induction on their number, two
sequences that agree there have the same value. -/
theorem evaluate_congr (r : R) {n : ℕ} {f g : ℕ → Bool}
    (h : ∀ i < n, f i = g i) :
    evaluate r n f = evaluate r n g := by
  induction n generalizing f g with
  | zero => rfl
  | succ n ih =>
    rw [evaluate, evaluate, h 0 (Nat.succ_pos n),
      ih fun i hi => h (i + 1) (Nat.succ_lt_succ hi)]

/-- The last bit is the coefficient of the highest power. It is the
other way of taking one bit off. -/
theorem evaluate_succ (r : R) (n : ℕ) (f : ℕ → Bool) :
    evaluate r (n + 1) f = evaluate r n f + bitValue (f n) * r ^ n := by
  induction n generalizing f with
  | zero => simp [evaluate]
  | succ n ih =>
    rw [evaluate, ih, evaluate, pow_succ]
    ring

/-- Without a bit set the value is zero, however many places there are. -/
theorem evaluate_false (r : R) (n : ℕ) : evaluate r n (fun _ => false) = 0 := by
  induction n with
  | zero => rfl
  | succ n ih => rw [evaluate, ih, mul_zero, add_zero, bitValue_false]

/-- A map of rings takes the value at one element to the value at
another. -/
theorem map_evaluate (φ : R →+* S) (r : R) (n : ℕ) (f : ℕ → Bool) :
    φ (evaluate r n f) = evaluate (φ r) n f := by
  induction n generalizing f with
  | zero => exact map_zero φ
  | succ n ih =>
    rw [evaluate, evaluate, map_add, map_mul, ih]
    congr 1
    cases f 0
    · exact map_zero φ
    · exact map_one φ

end Evaluate

section Binary

variable {R : Type} [CommRing R] [Algebra (ZMod 2) R]

/-- In a ring where two is zero, the exclusive or of bits is their sum.
The four cases are those of the two bits. -/
theorem bitValue_xor (a b : Bool) :
    (bitValue (a ^^ b) : R) = bitValue a + bitValue b := by
  cases a <;> cases b <;> simp [ZModModule.add_self]

/-- **Exclusive or is addition.** It holds because two is zero, at every
place and so for the whole sequence. -/
theorem evaluate_xor (r : R) (n : ℕ) (f g : ℕ → Bool) :
    evaluate r n (fun i => f i ^^ g i) = evaluate r n f + evaluate r n g := by
  induction n generalizing f g with
  | zero => exact (add_zero _).symm
  | succ n ih =>
    rw [evaluate, evaluate, evaluate, ih, bitValue_xor]
    ring

end Binary

/-! ## Adjoining a root -/

/-- A word of `n` bits as a polynomial of degree below `n`. So the
polynomial of a word has the bits of the word. -/
theorem coeff_evaluate_X (n : ℕ) (f : ℕ → Bool) (i : ℕ) :
    (evaluate (X : (ZMod 2)[X]) n f).coeff i = if i < n then bitValue (f i)
    else 0 := by
  induction n generalizing f i with
  | zero => exact coeff_zero i
  | succ n ih =>
    have hbit (b : Bool) : (bitValue b : (ZMod 2)[X]) = C (bitValue b) := by
      cases b
      · exact C_0.symm
      · exact C_1.symm
    rw [evaluate, coeff_add, hbit]
    cases i with
    | zero => rw [coeff_C_zero, coeff_X_mul_zero, add_zero, if_pos n.succ_pos]
    | succ i =>
      rw [coeff_C_succ, coeff_X_mul, zero_add, ih]
      simp only [Nat.add_lt_add_iff_right]

/-- The polynomial of a word of `n` bits has no term of degree `n`, and
so is its own remainder by a modulus of that degree. -/
theorem degree_evaluate_X_lt (n : ℕ) (f : ℕ → Bool) :
    (evaluate (X : (ZMod 2)[X]) n f).degree < n := by
  refine (degree_lt_iff_coeff_zero _ _).mpr fun i hi => ?_
  rw [coeff_evaluate_X, if_neg (Nat.not_lt_of_le hi)]

/-- **The modulus of degree `n`** whose other coefficients are these
bits. It is monic, whatever the bits are. -/
noncomputable def modulus (n : ℕ) (low : ℕ → Bool) : (ZMod 2)[X] :=
  X ^ n + evaluate X n low

section Modulus

variable {n : ℕ} {low : ℕ → Bool}

/-- Its degree is the number of bits of a word: the highest power stands
alone, before the bits. -/
theorem natDegree_modulus (n : ℕ) (low : ℕ → Bool) :
    (modulus n low).natDegree = n := by
  have hlow : (evaluate (X : (ZMod 2)[X]) n low).degree
    < (X ^ n : (ZMod 2)[X]).degree := by
    rw [degree_X_pow]
    exact degree_evaluate_X_lt n low
  rw [modulus, natDegree_add_eq_left_of_degree_lt hlow, natDegree_X_pow]

/-- It is not zero, since its highest coefficient is one. The residues
are therefore a ring with a root in it. -/
theorem modulus_ne_zero (n : ℕ) (low : ℕ → Bool) : modulus n low ≠ 0 :=
  (monic_X_pow_add (degree_evaluate_X_lt n low)).ne_zero

/-- The highest power is what the modulus makes of it. It is the
equation by which the root is adjoined. -/
theorem root_pow_eq : AdjoinRoot.root (modulus n low) ^ n
    = evaluate (AdjoinRoot.root (modulus n low)) n low := by
  have h : AdjoinRoot.mk (modulus n low) (X ^ n + evaluate X n low) = 0 :=
    AdjoinRoot.mk_self
  rw [map_add, map_pow, map_evaluate, AdjoinRoot.mk_X] at h
  rw [eq_neg_of_add_eq_zero_left h, ZModModule.neg_eq_self]

/-- **A shift is multiplication by the root.** What falls out is the
highest power, and goes back in as the bits of the modulus. The
hypotheses say what a shift does to the bits, and nothing about how it
is computed. -/
theorem root_mul_evaluate {f g : ℕ → Bool} (hzero : g 0 = (f n && low 0))
    (hsucc : ∀ i < n, g (i + 1) = (f i ^^ (f n && low (i + 1)))) :
    evaluate (AdjoinRoot.root (modulus (n + 1) low)) (n + 1) g
      = AdjoinRoot.root (modulus (n + 1) low)
        * evaluate (AdjoinRoot.root (modulus (n + 1) low)) (n + 1) f := by
  generalize hr : AdjoinRoot.root (modulus (n + 1) low) = r
  have hpow : r ^ (n + 1) = evaluate r (n + 1) low := hr ▸ root_pow_eq
  have hshifted : r * evaluate r (n + 1) f
      = evaluate r (n + 1) (fun i => i.casesOn false f)
        + bitValue (f n) * r ^ (n + 1) := by
    refine Eq.trans ?_ (evaluate_succ r (n + 1) fun i => i.casesOn false f)
    show _ = bitValue false + r * evaluate r (n + 1) f
    rw [bitValue_false, zero_add]
  have hfallen : bitValue (f n) * evaluate r (n + 1) low
      = evaluate r (n + 1) fun i => f n && low i := by
    cases f n
    · exact (zero_mul _).trans (evaluate_false r (n + 1)).symm
    · exact one_mul _
  rw [hshifted, hpow, hfallen, ← evaluate_xor]
  refine evaluate_congr r fun i hi => ?_
  cases i with
  | zero => exact hzero.trans (Bool.false_xor _).symm
  | succ i => exact hsucc i (Nat.lt_of_succ_lt_succ hi)

/-- **The value at the root determines the bits.** Two polynomials of
smaller degree than the modulus are the same if they are the same modulo
it. -/
theorem eq_of_evaluate_root_eq {f g : ℕ → Bool}
    (h : evaluate (AdjoinRoot.root (modulus n low)) n f
        = evaluate (AdjoinRoot.root (modulus n low)) n g) :
    ∀ i < n, f i = g i := by
  have hdvd : modulus n low ∣ evaluate X n f - evaluate X n g := by
    rw [← AdjoinRoot.mk_eq_mk, map_evaluate, map_evaluate, AdjoinRoot.mk_X, h]
  have hdegree : (evaluate (X : (ZMod 2)[X]) n f - evaluate X n g).degree
      < (modulus n low).degree := by
    rw [degree_eq_natDegree (modulus_ne_zero n low), natDegree_modulus]
    exact (degree_sub_le _ _).trans_lt
      (max_lt (degree_evaluate_X_lt n f) (degree_evaluate_X_lt n g))
  have heq := sub_eq_zero.mp (eq_zero_of_dvd_of_degree_lt hdvd hdegree)
  intro i hi
  have hcoeff := congrArg (coeff · i) heq
  simp only [coeff_evaluate_X, if_pos hi] at hcoeff
  have hinj : ∀ a b : Bool, (bitValue a : ZMod 2) = bitValue b → a = b := by
    decide
  exact hinj _ _ hcoeff

/-- **Rabin's test** for a modulus whose degree is a power of two. A
factor of it has a degree that divides this power; if it did not divide
the one before as well, it is the whole degree. The second condition is
given by an inverse, which is easier to compute with than a greatest
common divisor. -/
theorem irreducible_of_frobenius {p : (ZMod 2)[X]} (k : ℕ)
    (hdegree : p.natDegree = 2 ^ (k + 1))
    (hround : AdjoinRoot.root p ^ 2 ^ 2 ^ (k + 1) = AdjoinRoot.root p)
    (hhalf : IsUnit (AdjoinRoot.root p ^ 2 ^ 2 ^ k - AdjoinRoot.root p)) :
    Irreducible p := by
  have hpositive : 0 < p.natDegree := hdegree ▸ Nat.two_pow_pos _
  have hp : p ≠ 0 := ne_zero_of_natDegree_gt hpositive
  have hpower (n : ℕ) : AdjoinRoot.mk p (X ^ Nat.card (ZMod 2) ^ n - X)
      = AdjoinRoot.root p ^ 2 ^ n - AdjoinRoot.root p := by
    rw [Nat.card_zmod, map_sub, map_pow, AdjoinRoot.mk_X]
  -- An irreducible factor is seen to have the whole degree, so that the modulus
  -- is that factor.
  obtain ⟨q, hq, hdvd⟩ :=
    WfDvdMonoid.exists_irreducible_factor
      (not_isUnit_of_natDegree_pos p hpositive) hp
  have hwhole : q.natDegree ∣ 2 ^ (k + 1) := by
    refine hq.natDegree_dvd_iff_dvd_X_pow_card_pow_sub_X.mpr (hdvd.trans ?_)
    rw [← AdjoinRoot.mk_eq_zero, hpower, hround, sub_self]
  have hhalf : ¬q.natDegree ∣ 2 ^ k := by
    intro h
    obtain ⟨inverse, hinverse⟩ := hhalf.exists_right_inv
    obtain ⟨inverse, rfl⟩ := AdjoinRoot.mk_surjective inverse
    rw [← hpower, ← map_mul, ← map_one (AdjoinRoot.mk p), AdjoinRoot.mk_eq_mk]
      at hinverse
    have hfactor :=
      (hq.natDegree_dvd_iff_dvd_X_pow_card_pow_sub_X.mp h).mul_right inverse
    exact hq.not_isUnit
      (isUnit_of_dvd_one ((dvd_sub_right hfactor).mp (hdvd.trans hinverse)))
  obtain ⟨j, hj, hpow⟩ := (Nat.dvd_prime_pow Nat.prime_two).mp hwhole
  have hfull : q.natDegree = 2 ^ (k + 1) := by
    obtain hlt | rfl := Nat.lt_or_eq_of_le hj
    · -- A smaller power of two would divide half the degree.
      exact absurd (hpow ▸ Nat.pow_dvd_pow 2 (Nat.le_of_lt_succ hlt)) hhalf
    · exact hpow
  exact (associated_of_dvd_of_natDegree_le hdvd hp
      (hdegree.trans hfull.symm).le).irreducible hq

/-- **In the field of an irreducible modulus** every element comes back
to itself when it has been squared as often as the degree says. The
field has as many elements as there are words. -/
theorem pow_card_of_irreducible {p : (ZMod 2)[X]} [Fact (Irreducible p)]
    (a : AdjoinRoot p) :
    a ^ 2 ^ p.natDegree = a := by
  have hp : p ≠ 0 := (Fact.out : Irreducible p).ne_zero
  have : Module.Finite (ZMod 2) (AdjoinRoot p) :=
    (AdjoinRoot.powerBasis hp).finite
  have : Finite (AdjoinRoot p) := Module.finite_of_finite (ZMod 2)
  have : Fintype (AdjoinRoot p) := Fintype.ofFinite _
  have hcard : Fintype.card (AdjoinRoot p) = 2 ^ p.natDegree := by
    rw [Module.card_eq_pow_finrank (K := ZMod 2), ZMod.card,
      (AdjoinRoot.powerBasis hp).finrank]
    rfl
  rw [← hcard, FiniteField.pow_card]

end Modulus

end Strongbox
