import Strongbox.BlockCipher
import Strongbox.Buffer

/-!
# Computations that can go wrong

A program that keeps its state in rows of bytes, works on them by ranges
and counts in machine words can go wrong in ways that are not among its
answers: by a range that is not one of the row, by a copy between ranges
of different sizes, by a sum that no word holds. A `Checked` computation
is one that says so. It ends with a value, or with the `Fault` it ran
into, and every operation on ranges and words that can go wrong is one
of those here.

A fault is not a refusal. A refusal is an answer, and what computes it
has ended well.

## What is checked

There is one operation for each way to go wrong. `slice`, `put`, `wipe`
and `splitAt` ask whether a range is one of the row and whether two
ranges are of one size; `byteAt` and `setByte` ask for an index; `add`,
`sub`, `mul` and `powerOfTwo` ask whether the result is a word. `block`
and `encrypt` ask for sixteen bytes, and `append` asks whether a buffer
can grow as far as it must. A program written with these operations and
no others has a fault in its result wherever the machine would stop.

Each fault carries what a message about it would tell: the range and the
length of the row, or the two sizes. No theorem depends on which fault
it is, since what is proved is that there is none.

## Words of 64 bits

The width of a word is fixed here at 64 bits. A narrower word would
bring faults that a wider one does not have; the limits of both modes
are stated for this width.
-/

namespace Strongbox

/-- **What a computation can run into.** The list is of causes, not of
places: the same fault may come from anywhere in a program. -/
inductive Fault where
  /-- A range that is not one of the row. -/
  | range (start stop length : Nat)
  /-- Two ranges that ought to be of one size. -/
  | sizes (expected found : Nat)
  /-- A difference below zero. -/
  | belowZero
  /-- A number that no word holds. -/
  | tooLarge
  /-- A loop that does not come nearer to its end. -/
  | endless
  deriving DecidableEq, Repr

/-- **A computation that ends with a value or with a fault.**
Computations are put together in the order in which they run, and the
first fault ends them. -/
abbrev Checked (α : Type) := Except Fault α

namespace Checked

/-! ## Words -/

/-- The numbers that a word holds are those below this one. The number
is written out, so that it is a constant wherever it is compared with. -/
def wordLimit : Nat := 0x10000000000000000

/-- The bits of a word. A shift by so many bits or more is not one of a
word. -/
def wordBits : Nat := 64

/-- A sum of words. A sum that is too large is a fault here; a sum that
the program checks for itself is `sumWithin?`. -/
def add (a b : Nat) : Checked Nat :=
  if a + b < wordLimit then .ok (a + b) else .error .tooLarge

/-- A difference of words. Lengths and positions are counted without a
sign, and none of them may be taken below zero. -/
def sub (a b : Nat) : Checked Nat :=
  if b ≤ a then .ok (a - b) else .error .belowZero

/-- A product of words. It is how a length in bytes becomes one in bits. -/
def mul (a b : Nat) : Checked Nat :=
  if a * b < wordLimit then .ok (a * b) else .error .tooLarge

/-- A power of two as a word. The limits on lengths are such powers,
less one. -/
def powerOfTwo (bits : Nat) : Checked Nat :=
  if bits < wordBits then .ok (1 <<< bits) else .error .tooLarge

/-- **A sum that is asked about before it is used**: there is one if a
word holds it and it is within a limit. It is no fault if there is none:
the program has an answer for it. -/
def sumWithin? (limit a b : Nat) : Option Nat :=
  if a + b < wordLimit ∧ a + b ≤ limit then some (a + b) else none

/-! ## Ranges -/

/-- **The bytes of a range**, up to but without the one at `stop`. The
bounds are asked for in the order in which the machine asks: the range
must not be turned round, and must end inside the row. -/
def slice (row : Bytes) (start stop : Nat) : Checked Bytes :=
  if start ≤ stop ∧ stop ≤ row.length then .ok ((row.take stop).drop start)
  else .error (.range start stop row.length)

/-- **Copies over a range**, which must be as long as what is copied.
The rest of the row stays, and so does its length. -/
def put (row : Bytes) (start stop : Nat) (src : Bytes) : Checked Bytes := do
  let dest ← slice row start stop
  if dest.length = src.length then return row.take start ++ src ++ row.drop stop
  else .error (.sizes dest.length src.length)

/-- **Wipes a range.** It is a copy of zeros, and so it is checked like
a copy. -/
def wipe (row : Bytes) (start stop : Nat) : Checked Bytes := do
  let dest ← slice row start stop
  put row start stop (Bytes.zeros dest.length)

/-- The two parts of a row, the first one of a given length. The first
part may be the whole row, and then the second one is empty. -/
def splitAt (row : Bytes) (n : Nat) : Checked (Bytes × Bytes) :=
  if n ≤ row.length then .ok (row.take n, row.drop n)
  else .error (.range 0 n row.length)

/-- The byte at an index. The index has to be below the length. -/
def byteAt (row : Bytes) (i : Nat) : Checked UInt8 :=
  match row[i]? with
  | some byte => .ok byte
  | none => .error (.range i (i + 1) row.length)

/-- Writes the byte at an index. Nothing but the byte at the index is
changed. -/
def setByte (row : Bytes) (i : Nat) (byte : UInt8) : Checked Bytes :=
  if i < row.length then .ok (row.set i byte)
  else .error (.range i (i + 1) row.length)

/-! ## Blocks and buffers -/

/-- A range as a block, if it is as long as one. What is longer than a
block is not cut, and what is shorter is not filled up; both are faults. -/
def block (bytes : Bytes) : Checked Block :=
  if bytes.length = 16 then .ok (Block.ofBytes bytes)
  else .error (.sizes 16 bytes.length)

/-- **Encrypts a range**, which must be as long as a block. The range is
replaced by the bytes of the encrypted block. -/
def encrypt (cipher : BlockCipher) (bytes : Bytes) : Checked Bytes := do
  let b ← block bytes
  return (cipher.encrypt b).toBytes

/-- The most slots that a row can have. It is the largest size of
anything that lies in memory. -/
def maxSlots : Nat := 0x7FFFFFFFFFFFFFFF

/-- **Appends to a buffer.** The new length must be a word, and if there
is not room enough, the row to which the buffer moves must be one that
there can be. If neither condition fails, what comes of it is the
appending that no machine limits. -/
def append (b : Buffer UInt8) (elements : Bytes) : Checked (Buffer UInt8) := do
  let needed ← add b.length elements.length
  if needed ≤ b.capacity ∨ ceilPowerOfTwo needed ≤ maxSlots then
    return b.append elements
  else .error .tooLarge

end Checked

end Strongbox
