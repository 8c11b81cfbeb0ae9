import Strongbox.Bytes

/-!
# Blocks of sixteen bytes

A block cipher sees its input sixteen bytes at a time. This module holds
the block itself, its exclusive or, the cutting of a byte string into
blocks – the last one filled up with zeros – and the one piece of
arithmetic that counter modes do on a block: adding one to the number in
its last bytes.

## Counters

The last `k` bytes of a block, most significant first, are a number
(`Block.low k`), and `Block.increment k` adds one to it modulo `256 ^ k`
without touching the bytes before it. Both modes of this library count
in this way and differ in `k` alone.

## Bytes of a block

A block is a vector of sixteen bytes, so that its length is part of its
type and no operation on blocks has to ask for it. Byte strings come and
go: `ofBytes` makes a block of the beginning of a byte string, with
zeros where there is nothing, and `toBytes` gives the sixteen bytes
back. On sixteen bytes the two are inverse to each other, and on fewer
`toBytes_ofBytes` says what is added.

`split` is where messages of any length meet blocks. The empty string
has no block, so that a part of a message that is not there takes no
part in an authentication; and since the last block is filled up with
zeros, two strings may have the same blocks, which is why both modes
authenticate lengths besides.
-/

namespace Strongbox

/-- **A block**: sixteen bytes. -/
abbrev Block := Vector UInt8 16

namespace Block

/-- A position in a byte string falls on a position in a block. It is
the bound that every look into a keystream block needs. -/
theorem mod_lt (j : Nat) : j % 16 < 16 := Nat.mod_lt j (by decide)

/-- The block of sixteen zero bytes. Its encryption is the hash key of
one mode, and the chain of the other begins with it. -/
def zero : Block := Vector.replicate 16 0

/-- The block that starts with the given bytes and goes on with zeros.
Bytes past the sixteenth are dropped. The bytes behind the end of a
short string count as zeros, as they do in the last block of a message. -/
def ofBytes (bytes : Bytes) : Block :=
  ⟨((bytes.take 16 ++ Bytes.zeros 16).take 16).toArray, by simp⟩

/-- Byte `i` of a block. An index past the end reads as zero. The
functions that take a block apart into words use fixed indices below
sixteen, and need no proof of it. -/
def byte (b : Block) (i : Nat) : UInt8 := b.toArray.getD i 0

/-- The sixteen bytes of a block. Where a block is kept in a row of
bytes, this is what the row holds. -/
def toBytes (b : Block) : Bytes := b.toList

@[simp] theorem length_toBytes (b : Block) : b.toBytes.length = 16 := by
  simp [toBytes]

/-- A block is determined by its bytes. So a row of sixteen bytes may
stand for a block, and nothing is lost by writing a block into it. -/
theorem ofBytes_toBytes (b : Block) : ofBytes b.toBytes = b := by
  apply Vector.toList_inj.mp
  have h : b.toArray.toList.take 16 = b.toArray.toList :=
    List.take_of_length_le (by simp)
  simp [ofBytes, toBytes, Vector.toList, h]

/-- What is written into a block is read back with its zeros. This
covers strings of any length: what is too long is cut, what is too short
is filled up. -/
theorem toBytes_ofBytes (bytes : Bytes) :
    (ofBytes bytes).toBytes = (bytes.take 16 ++ Bytes.zeros 16).take 16 := by
  simp [ofBytes, toBytes, Vector.toList]

/-- Sixteen bytes are read back as they are. It is the other half of
`ofBytes_toBytes`. -/
theorem toBytes_ofBytes_of_length {bytes : Bytes} (h : bytes.length = 16) :
    (ofBytes bytes).toBytes = bytes := by
  simp [toBytes_ofBytes, List.take_of_length_le (Nat.le_of_eq h), h]

/-- Bytewise exclusive or. The sum of two blocks, which both
authentications and the encryption of a tag use. -/
def xor (a b : Block) : Block := a.zipWith (· ^^^ ·) b

/-- **Cutting into blocks.** The bytes in order, sixteen to a block; the
last block is filled up with zeros, and the empty byte string has no
block. Every call takes sixteen bytes off, so that the recursion ends. -/
def split (bytes : Bytes) : List Block :=
  if bytes.isEmpty then []
  else ofBytes bytes :: split (bytes.drop 16)
termination_by bytes.length
decreasing_by
  cases bytes with
  | nil => contradiction
  | cons x xs => simp only [List.length_drop, List.length_cons]; omega

@[simp] theorem split_nil : split [] = [] := by
  rw [split]; rfl

/-- The first block holds the first sixteen bytes, and the others come
of what is behind them. -/
theorem split_of_ne_nil {bytes : Bytes} (h : bytes ≠ []) :
    split bytes = ofBytes bytes :: split (bytes.drop 16) := by
  rw [split, if_neg (by simpa using h)]

/-- A byte string filled up with zeros to a whole number of blocks. It
says with bytes what `split` says with blocks: the blocks of a string
are its padded bytes, sixteen at a time. -/
def padded (bytes : Bytes) : Bytes :=
  bytes ++ Bytes.zeros ((16 - bytes.length % 16) % 16)

/-- The number in the last `k` bytes of a block, most significant byte
first. With `k = 4` it is the number that Galois/counter mode counts
with; in the other mode `k` depends on the length of the nonce. -/
def low (k : Nat) (b : Block) : Nat :=
  Bytes.ofBigEndian (b.toBytes.drop (16 - k))

/-- **Counting.** Adds one to the number in the last `k` bytes, modulo
`256 ^ k`, and leaves the bytes before them alone. A counter at its end
begins again with zero. That this is not reached while a message is
encrypted is a matter of the length limits of a mode, not of counting. -/
def increment (k : Nat) (b : Block) : Block :=
  ofBytes (b.toBytes.take (16 - k) ++ Bytes.bigEndian k (low k b + 1))

end Block

end Strongbox
