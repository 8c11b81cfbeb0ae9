/-!
# The AES byte field and its substitution box

AES computes on bytes as polynomials over the field of two elements,
reduced modulo `x⁸ + x⁴ + x³ + x + 1`. Its only non-linear part is the
substitution box: the inverse in that field, followed by an affine map
of the bits. The box is computed here from that definition rather than
listed, so that there is no number of it to be mistyped.

## Tables

A byte has 256 values, so a function on bytes may be listed once and
looked up afterwards. `tabulate` lists and `look` looks up, and
`look_tabulate` says that nothing is changed by it: a proof about the
box is a proof about `affine` and `inverse`, and the table is only how
it runs.

## The inverse

The inverse is a power, for which no division is needed and zero is no
case of its own: every power of zero but the zeroth is zero. That it is
one to one on bytes, as the box has to be, is proved from the field
itself in the proofs about the box.
-/

namespace Strongbox.Aes

/-- Multiplication by the polynomial `x`: a shift, and a reduction when
the leading bit falls out. The byte `0x1b` is what remains of the
modulus without its leading term. -/
def double (a : UInt8) : UInt8 :=
  (a <<< 1) ^^^ (if a &&& 0x80 = 0 then 0 else 0x1b)

/-- The product of two bytes in the field, one bit of the second factor
at a time. Eight steps use every bit of the second factor, and the first
factor is doubled between two of them. -/
def mul (a b : UInt8) : UInt8 :=
  go 8 a b 0
where
  /-- Adds the multiples of `a` that the next bits of `b` select. -/
  go : Nat → UInt8 → UInt8 → UInt8 → UInt8
    | 0, _, _, acc => acc
    | n + 1, a, b, acc =>
      go n (double a) (b >>> 1) (if b &&& 1 = 0 then acc else acc ^^^ a)

/-- A power of a byte in the field. The recursion multiplies once for
every unit of the exponent. That is slow and is done once, when the
table is made. -/
def power (a : UInt8) : Nat → UInt8
  | 0 => 1
  | n + 1 => mul a (power a n)

/-- **The inverse in the field**, with zero sent to zero: the
multiplicative group has 255 elements, so the inverse is the 254th
power. -/
def inverse (a : UInt8) : UInt8 := power a 254

/-- Rotation of the eight bits of a byte to the left, for `0 < n < 8`.
The amount is a byte because shifts of bytes take one. -/
def rotateLeft (a : UInt8) (n : UInt8) : UInt8 :=
  (a <<< n) ||| (a >>> (8 - n))

/-- The affine map that follows the inverse. It is the sum of five
rotations of the byte and of a constant; the constant sees to it that no
byte is its own substitute. -/
def affine (a : UInt8) : UInt8 :=
  a ^^^ rotateLeft a 1 ^^^ rotateLeft a 2 ^^^ rotateLeft a 3
    ^^^ rotateLeft a 4 ^^^ 0x63

/-- A function on bytes, listed once so that it is looked up afterwards.
A table is a vector of 256 entries, so that no byte is outside it. -/
def tabulate {α : Type} (f : UInt8 → α) : Vector α UInt8.size :=
  Vector.ofFn fun i => f (UInt8.ofFin i)

/-- The entry of a table at a byte. The bound is that of a byte, and the
look cannot fail. -/
@[inline] def look {α : Type} (table : Vector α UInt8.size) (a : UInt8) : α :=
  have h : a.toNat < UInt8.size := a.toNat_lt
  table[a.toNat]

/-- Looking up is applying the function that was listed. So a table
never appears in a proof about what it lists. -/
@[simp] theorem look_tabulate {α : Type} (f : UInt8 → α) (a : UInt8) :
    look (tabulate f) a = f a := by
  simp [look, tabulate]

/-- The table of the substitution box. It is a constant, which is
computed when it is first used. -/
def boxTable : Vector UInt8 UInt8.size := tabulate fun a => affine (inverse a)

/-- **The substitution box.** Every byte of the state passes through it
once in a round, and the key schedule uses it too. -/
def substitute (a : UInt8) : UInt8 := look boxTable a

/-- The box is its definition, whatever is listed. -/
theorem substitute_eq (a : UInt8) : substitute a = affine (inverse a) := by
  simp [substitute, boxTable]

end Strongbox.Aes
