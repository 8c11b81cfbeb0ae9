import Mathlib.Algebra.Group.Nat.Defs
import Strongbox.Bytes

/-!
# Numbers in bytes

A number that is written with `w` bytes and read again is the number
modulo `256 ^ w`, whichever byte comes first; and what does not fit
makes no difference to what is written. Both are said for the order with
the least significant byte first, where the recursion is, and carried
over by reversing.

## Which lemma for what

A proof about a format usually needs one of three things. It may cut a
number where a field ends (`littleEndian_cut`, `drop_bigEndian`), or put
two fields together (`littleEndian_add`); it may read a number back and
get what was written (`ofLittleEndian_littleEndian`,
`ofBigEndian_bigEndian`); or it may ask for the byte at a place
(`getElem?_littleEndian`, `getElem?_mixInto`, `getElem?_repeated`),
which is how two ways of writing the same bytes are compared.

The last ones are stated with an index that may be out of range, so that
a comparison of two strings is a comparison at every index, and their
lengths come out of it.
-/

namespace Strongbox.Bytes

/-- Zeros go on as zeros. A range that is wiped in two parts is wiped as
a whole. -/
theorem zeros_append_zeros (m n : Nat) : zeros m ++ zeros n = zeros (m + n) :=
  List.replicate_append_replicate

/-- A copy that fits takes the place of the start. Nothing of the source
is lost then, and the rest of the destination stays. -/
theorem overwrite_of_le_length {src dest : Bytes}
    (h : src.length ≤ dest.length) :
    overwrite src dest = src ++ dest.drop src.length := by
  unfold overwrite
  rw [List.take_of_length_le h]

/-- Reading back what `littleEndian` wrote keeps the low `w` bytes. By
induction on the width, with the lowest byte in front. -/
theorem ofLittleEndian_littleEndian (w n : Nat) :
    ofLittleEndian (littleEndian w n) = n % 256 ^ w := by
  induction w generalizing n with
  | zero => simp [littleEndian, ofLittleEndian, Nat.mod_one]
  | succ w ih =>
    have step : ofLittleEndian (littleEndian (w + 1) n)
        = n % 256 + 256 * ofLittleEndian (littleEndian w (n / 256)) := by
      simp [littleEndian, ofLittleEndian]
    rw [step, ih, Nat.pow_succ, Nat.mul_comm (256 ^ w) 256, Nat.mod_mul]

/-- Reading back what `bigEndian` wrote keeps the low `w` bytes. It is
the same law, read from the other end. -/
theorem ofBigEndian_bigEndian (w n : Nat) :
    ofBigEndian (bigEndian w n) = n % 256 ^ w := by
  rw [ofBigEndian_eq, bigEndian, List.reverse_reverse,
    ofLittleEndian_littleEndian]

/-- A number is written by its low bytes alone. So a number may be
reduced before it is written, or not. -/
theorem littleEndian_mod (w n : Nat) :
    littleEndian w (n % 256 ^ w) = littleEndian w n := by
  induction w generalizing n with
  | zero => rfl
  | succ w ih =>
    have hhead : UInt8.ofNat (n % 256 ^ (w + 1)) = UInt8.ofNat n := by
      refine UInt8.toNat_inj.mp ?_
      rw [UInt8.toNat_ofNat', UInt8.toNat_ofNat']
      exact Nat.mod_mod_of_dvd n (Nat.dvd_mul_left 256 (256 ^ w))
    have htail : n % 256 ^ (w + 1) / 256 = n / 256 % 256 ^ w := by
      rw [Nat.pow_succ, Nat.mul_comm]
      exact Nat.mod_mul_right_div_self n 256 (256 ^ w)
    rw [littleEndian, littleEndian, hhead, htail, ih]

/-- **Two numbers side by side** are written one behind the other. The
first one must fit its width, or it would run into the second. -/
theorem littleEndian_add (v w : Nat) {m : Nat} (hm : m < 256 ^ v) (n : Nat) :
    littleEndian (v + w) (m + 256 ^ v * n)
      = littleEndian v m ++ littleEndian w n := by
  induction v generalizing m with
  | zero =>
    obtain rfl : m = 0 := Nat.lt_one_iff.mp hm
    rw [Nat.zero_add, Nat.zero_add, Nat.pow_zero, Nat.one_mul]
    rfl
  | succ v ih =>
    have hsum : m + 256 ^ (v + 1) * n = m + 256 * (256 ^ v * n) := by
      rw [Nat.pow_succ, Nat.mul_comm (256 ^ v) 256, Nat.mul_assoc]
    have hhead : UInt8.ofNat (m + 256 * (256 ^ v * n)) = UInt8.ofNat m := by
      refine UInt8.toNat_inj.mp ?_
      rw [UInt8.toNat_ofNat', UInt8.toNat_ofNat']
      exact Nat.add_mul_mod_self_left m 256 _
    have htail : (m + 256 * (256 ^ v * n)) / 256 = m / 256 + 256 ^ v * n :=
      Nat.add_mul_div_left m _ (by decide)
    have hm' : m / 256 < 256 ^ v :=
      Nat.div_lt_of_lt_mul (by rwa [Nat.pow_succ, Nat.mul_comm] at hm)
    rw [Nat.succ_add, littleEndian, hsum, hhead, htail, ih hm']
    rfl

/-- **Each byte of a number** is what is left of it there. By induction
on the width: behind the lowest byte stands the quotient. -/
theorem getElem?_littleEndian {w i : Nat} (hi : i < w) (n : Nat) :
    (littleEndian w n)[i]? = some (UInt8.ofNat (n / 256 ^ i)) := by
  induction w generalizing i n with
  | zero => exact absurd hi (Nat.not_lt_zero i)
  | succ w ih =>
    cases i with
    | zero =>
      rw [Nat.pow_zero, Nat.div_one]
      rfl
    | succ i =>
      rw [littleEndian, List.getElem?_cons_succ, ih (Nat.lt_of_succ_lt_succ hi),
        Nat.div_div_eq_div_mul, Nat.pow_succ']

/-- **Each byte of a destination** under a mask. What the mask does not
reach stays. Past the end of the destination there is no byte on either
side. -/
theorem getElem?_mixInto (mask dest : Bytes) (i : Nat) :
    (mixInto mask dest)[i]?
      = dest[i]?.map fun byte => (mask[i]?.map (byte ^^^ ·)).getD byte := by
  induction dest generalizing mask i with
  | nil =>
    rw [List.eq_nil_of_length_eq_zero (length_mixInto mask [])]
    rfl
  | cons byte dest ih =>
    cases mask with
    | nil =>
      show (byte :: dest)[i]? = (byte :: dest)[i]?.map fun byte => byte
      rw [Option.map_id']
    | cons first mask =>
      cases i with
      | zero => rfl
      | succ i => exact ih mask i

/-- Copies of a pattern, one behind the other. The index is taken modulo
the length of the pattern. -/
theorem getElem?_flatten_replicate (pattern : Bytes) {k i : Nat}
    (hi : i < k * pattern.length) :
    (List.replicate k pattern).flatten[i]? = pattern[i % pattern.length]? := by
  induction k generalizing i with
  | zero => exact absurd hi (by rw [Nat.zero_mul]; exact Nat.not_lt_zero i)
  | succ k ih =>
    rw [List.replicate_succ, List.flatten_cons]
    obtain hfirst | hlater := Nat.lt_or_ge i pattern.length
    · rw [List.getElem?_append_left hfirst, Nat.mod_eq_of_lt hfirst]
    · have hrest : i - pattern.length < k * pattern.length :=
        Nat.sub_lt_left_of_lt_add hlater
          (by rwa [Nat.succ_mul, Nat.add_comm] at hi)
      rw [List.getElem?_append_right hlater, ih hrest,
        ← Nat.mod_eq_sub_mod hlater]

/-- **Each byte of a repeated pattern.** The pattern must have a byte,
and the index be within the length asked for. -/
theorem getElem?_repeated {pattern : Bytes} (hpattern : 0 < pattern.length)
    {n i : Nat} (hi : i < n) :
    (repeated pattern n)[i]? = pattern[i % pattern.length]? := by
  have hroom : n < (n / pattern.length + 1) * pattern.length := by
    rw [Nat.mul_comm]
    exact Nat.lt_mul_div_succ n hpattern
  unfold repeated
  rw [List.getElem?_take_of_lt hi]
  exact getElem?_flatten_replicate pattern (Nat.lt_trans hi hroom)

/-- Writing back what `ofLittleEndian` read gives the same bytes.
Together with the law the other way round, a string of `w` bytes is the
same as a number below `256 ^ w`. -/
theorem littleEndian_ofLittleEndian (bytes : Bytes) :
    littleEndian bytes.length (ofLittleEndian bytes) = bytes := by
  induction bytes with
  | nil => rfl
  | cons byte rest ih =>
    have hread : ofLittleEndian (byte :: rest)
      = byte.toNat + 256 * ofLittleEndian rest := rfl
    have hhead : UInt8.ofNat (byte.toNat + 256 * ofLittleEndian rest)
      = byte := by
      refine UInt8.toNat_inj.mp ?_
      rw [UInt8.toNat_ofNat']
      exact (Nat.add_mul_mod_self_left byte.toNat 256 _).trans
        (Nat.mod_eq_of_lt byte.toNat_lt)
    have htail : (byte.toNat + 256 * ofLittleEndian rest) / 256
      = ofLittleEndian rest := by
      rw [Nat.add_mul_div_left _ _ (by decide), Nat.div_eq_of_lt byte.toNat_lt,
        Nat.zero_add]
    rw [List.length_cons, littleEndian, hread, hhead, htail, ih]

/-- **A number cut in two** stands as its low bytes and its high ones. A
length field and a counter that lie side by side are told apart by it. -/
theorem littleEndian_cut (v w n : Nat) :
    littleEndian (v + w) n
      = littleEndian v n ++ littleEndian w (n / 256 ^ v) := by
  have hadd :=
    littleEndian_add v w (Nat.mod_lt n (Nat.pow_pos (by decide) : 0 < 256 ^ v))
      (n / 256 ^ v)
  rwa [Nat.mod_add_div, littleEndian_mod] at hadd

/-- **The low bytes of a number stand last**, most significant byte
first. So a narrow field may be cut out of a wide one, which is how a
number is written behind a nonce. -/
theorem drop_bigEndian (v w n : Nat) :
    (bigEndian (v + w) n).drop v = bigEndian w n := by
  unfold bigEndian
  rw [Nat.add_comm, littleEndian_cut, List.reverse_append,
    List.drop_left' (by rw [List.length_reverse, length_littleEndian])]

/-- A number is written by its low bytes alone, whichever of them comes
first. It is how the increment modulo a power of 256 becomes an
increment. -/
theorem bigEndian_mod (w n : Nat) :
    bigEndian w (n % 256 ^ w) = bigEndian w n :=
  congrArg List.reverse (littleEndian_mod w n)

/-- The number after one that is cut to its low bytes is written as the
number after it. A counter may therefore be read at its width and
written again. -/
theorem bigEndian_succ_mod (w n : Nat) :
    bigEndian w (n % 256 ^ w + 1) = bigEndian w (n + 1) := by
  rw [← bigEndian_mod w (n % 256 ^ w + 1), Nat.mod_add_mod, bigEndian_mod]

end Strongbox.Bytes
