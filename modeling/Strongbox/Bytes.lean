/-!
# Byte strings

Everything this library encrypts, authenticates, hashes or draws is a
`Bytes`: a list of bytes, in the order in which they lie in memory. The
module fixes the two ways a number is written into bytes – least or most
significant byte first, in a stated width – and the three ways one byte
string is laid over another: copied over its start, mixed into its
start, or repeated until it fills a length.

## Widths

`littleEndian w n` and `bigEndian w n` always have `w` bytes, so a
number that needs more is cut to its low `w` bytes. That is the reading
the formats built from them rely on: their length fields are bounded by
the limits checked before anything is written.

## Ranges

None of the three ways of laying one string over another can fail, and
none of them changes the length of what it is laid over. `overwrite`
drops what does not fit, `mixInto` stops at the shorter of the two, and
`repeated` begins the pattern again as often as is needed. Where a
program has to know that a range is one of the row it is cut from, it
asks before it copies; the operations that ask are those of `Checked`.

## Numbers

Both directions go through `littleEndian`: the most significant byte
first is the reverse of the least significant byte first, for writing as
for reading. So there is one recursion to reason about, and a lemma
about one byte order gives that about the other.
-/

namespace Strongbox

/-- **A byte string**, in the order of memory. It is a list, so that an
induction over the bytes of a message is an induction over a list. -/
abbrev Bytes := List UInt8

namespace Bytes

/-- A byte string of `n` zero bytes. This is what a wiped range holds,
and what a block that is not full is filled up with. -/
def zeros (n : Nat) : Bytes := List.replicate n 0

@[simp] theorem length_zeros (n : Nat) : (zeros n).length = n :=
  List.length_replicate

/-- The bytes of an ASCII text. Labels and contexts of the generator are
texts, and what is hashed is their bytes. A character outside ASCII is
cut to its low eight bits; the texts that are hashed have none. -/
def ascii (text : String) : Bytes :=
  text.toList.map fun c => UInt8.ofNat c.toNat

/-- **The low `w` bytes of a number, least significant first.** The
recursion is on the width, so that the length of the result does not
depend on the number, and a number that is too wide loses its high
bytes. -/
def littleEndian : (w n : Nat) → Bytes
  | 0, _ => []
  | w + 1, n => UInt8.ofNat n :: littleEndian w (n / 256)

/-- **The low `w` bytes of a number, most significant first.** This is
the byte order of the length fields and counters of the modes. -/
def bigEndian (w n : Nat) : Bytes := (littleEndian w n).reverse

/-- The four bytes of a word, least significant first. A generator hands
out its words in this byte order when bytes are asked of it. -/
def ofWord (w : UInt32) : Bytes := littleEndian 4 w.toNat

@[simp] theorem length_littleEndian (w n : Nat) :
    (littleEndian w n).length = w := by
  induction w generalizing n with
  | zero => rfl
  | succ w ih => simp [littleEndian, ih]

@[simp] theorem length_bigEndian (w n : Nat) : (bigEndian w n).length = w := by
  simp [bigEndian]

@[simp] theorem length_ofWord (w : UInt32) : (ofWord w).length = 4 :=
  length_littleEndian 4 _

/-- The number whose bytes, least significant first, are these. No width
is needed for reading; it is that of the bytes. -/
def ofLittleEndian (bytes : Bytes) : Nat :=
  bytes.foldr (fun byte n => byte.toNat + 256 * n) 0

/-- The number whose bytes, most significant first, are these. The fold
is the usual one: shift what has been read by a byte, and add the next. -/
def ofBigEndian (bytes : Bytes) : Nat :=
  bytes.foldl (fun n byte => 256 * n + byte.toNat) 0

/-- Reading most significant first is reading the reverse least
significant first. What is proved of one byte order is carried over to
the other by this equation. -/
theorem ofBigEndian_eq (bytes : Bytes) :
    ofBigEndian bytes = ofLittleEndian bytes.reverse := by
  simp only [ofBigEndian, ofLittleEndian, List.foldr_reverse]
  congr 1
  funext n byte
  exact Nat.add_comm _ _

/-- **Copying over the start of a destination.** What does not fit is
dropped, and what is not reached stays. A source of the same length
replaces the destination. -/
def overwrite (src dest : Bytes) : Bytes :=
  src.take dest.length ++ dest.drop src.length

@[simp] theorem length_overwrite (src dest : Bytes) :
    (overwrite src dest).length = dest.length := by
  simp only [overwrite, List.length_append, List.length_take, List.length_drop]
  omega

/-- What is behind the copy stays. A source that is longer than the
destination leaves nothing behind it, which is the second case. -/
theorem drop_overwrite (src dest : Bytes) :
    (overwrite src dest).drop src.length = dest.drop src.length := by
  unfold overwrite
  obtain h | h := Nat.le_total src.length dest.length
  · rw [List.take_of_length_le h, List.drop_left]
  · rw [List.drop_of_length_le h, List.append_nil,
      List.drop_of_length_le (List.length_take_le' ..)]

/-- **Mixing a mask into the start of a destination** by exclusive or.
What the mask does not reach stays. This is how the time of a draw gets
into a seed: what a source has put there is not lost, and a mask that is
known gives nothing away. -/
def mixInto (mask dest : Bytes) : Bytes :=
  List.zipWith (· ^^^ ·) dest mask ++ dest.drop mask.length

@[simp] theorem length_mixInto (mask dest : Bytes) :
    (mixInto mask dest).length = dest.length := by
  simp only [mixInto, List.length_append, List.length_zipWith, List.length_drop]
  omega

/-- **The first `n` bytes of a pattern repeated for ever**, beginning
with its first byte. An empty pattern yields nothing. It is how a seed
is made of a text that is shorter than the seed. -/
def repeated (pattern : Bytes) (n : Nat) : Bytes :=
  (List.replicate (n / pattern.length + 1) pattern).flatten.take n

end Bytes

end Strongbox
