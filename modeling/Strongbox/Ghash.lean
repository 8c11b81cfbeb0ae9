import Strongbox.Block

/-!
# GHASH

The universal hash of Galois/counter mode (NIST SP 800-38D). A block is
read as a polynomial over the field of two elements – its first bit is
the constant term – reduced modulo `x¹²⁸ + x⁷ + x² + x + 1`. The hash of
a list of blocks under a key is their Horner sum: add the next block,
multiply by the key.

`Ghash.ofBlocks` is that sum. `Ghash` is the same sum taken over a
stream of bytes that arrives in pieces: the blocks that are complete
have been added in, and the bytes of the one that is not are pending.
`flush` completes a pending block with zeros, which is how the mode
separates associated data from the message.

## Words

A field element is held as two words of 64 bits, the constant term in
the highest bit of the first one, which is how the bytes of a block lie
when they are read with the most significant one first. Multiplying by
`x` is then a shift to the right, and what falls out at the end comes
back as the polynomial of the modulus, whose bits are the constant
`0xe1` at the top of the first word.

The product goes through the bits of one factor and adds the multiples
of the other one that they select. Both choices – whether a multiple is
added, and whether a shift has to be reduced – are made with a mask of
all ones or all zeros and not with a branch, so that the course of the
computation is the same for all factors.

## Closing

The hash of a message is closed with a block of the two lengths, which
`digest` adds without changing the stream: a tag may be asked for more
than once.
-/

namespace Strongbox

/-- **An element of the field of 2¹²⁸ elements**, its bits in the order
of a block's. There is one such element for every block, and the sum of
two elements is the exclusive or of the words. -/
structure Field128 where
  /-- The first 64 bits, the constant term highest. -/
  hi : UInt64
  /-- The last 64 bits. -/
  lo : UInt64
  deriving DecidableEq, Repr

namespace Field128

/-- Eight bytes as a word, the first one highest. The order of the bytes
is that of the block. -/
@[inline] def word (a b c d e f g h : UInt8) : UInt64 :=
  (a.toUInt64 <<< 56) ||| (b.toUInt64 <<< 48) ||| (c.toUInt64 <<< 40)
    ||| (d.toUInt64 <<< 32) ||| (e.toUInt64 <<< 24) ||| (f.toUInt64 <<< 16)
    ||| (g.toUInt64 <<< 8) ||| h.toUInt64

/-- A block as a field element. Bit `i` of the block, counted from the
front, is the coefficient of `xⁱ`. -/
def ofBlock (b : Block) : Field128 where
  hi := word (b.byte 0) (b.byte 1) (b.byte 2) (b.byte 3)
    (b.byte 4) (b.byte 5) (b.byte 6) (b.byte 7)
  lo := word (b.byte 8) (b.byte 9) (b.byte 10) (b.byte 11)
    (b.byte 12) (b.byte 13) (b.byte 14) (b.byte 15)

/-- A field element as a block. The two conversions are inverse to each
other, and so a block may be hashed as a field element and read as a
block again. -/
def toBlock (a : Field128) : Block :=
  #v[(a.hi >>> 56).toUInt8, (a.hi >>> 48).toUInt8, (a.hi >>> 40).toUInt8,
    (a.hi >>> 32).toUInt8, (a.hi >>> 24).toUInt8, (a.hi >>> 16).toUInt8,
    (a.hi >>> 8).toUInt8, a.hi.toUInt8,
    (a.lo >>> 56).toUInt8, (a.lo >>> 48).toUInt8, (a.lo >>> 40).toUInt8,
    (a.lo >>> 32).toUInt8, (a.lo >>> 24).toUInt8, (a.lo >>> 16).toUInt8,
    (a.lo >>> 8).toUInt8, a.lo.toUInt8]

/-- **The product in the field**, one bit of the first factor at a time.
After 128 steps every bit of the first factor has been used, and the sum
is the product reduced. -/
def mul (a b : Field128) : Field128 :=
  go 128 a.hi a.lo b.hi b.lo 0 0
where
  /-- Adds the multiples of the second factor that the next bits of the
  first select; between two bits the second factor is multiplied by `x`,
  which shifts it and reduces what falls out. -/
  go : Nat → (ahi alo bhi blo hi lo : UInt64) → Field128
    | 0, _, _, _, _, hi, lo => ⟨hi, lo⟩
    | n + 1, ahi, alo, bhi, blo, hi, lo =>
      let chosen := (0 : UInt64) - (ahi >>> 63)
      let fallen := (0 : UInt64) - (blo &&& 1)
      go n ((ahi <<< 1) ||| (alo >>> 63)) (alo <<< 1)
        ((bhi >>> 1) ^^^ (fallen &&& 0xe100000000000000))
          ((blo >>> 1) ||| (bhi <<< 63))
        (hi ^^^ (chosen &&& bhi)) (lo ^^^ (chosen &&& blo))

end Field128

/-- The product of two blocks as field elements. It is a product of
blocks without a word of the field, which is how the hash uses it. -/
def Block.mul (a b : Block) : Block :=
  (Field128.mul (Field128.ofBlock a) (Field128.ofBlock b)).toBlock

/-- **The hash of a byte stream so far.** The key is part of the state
because a stream may be put back to its beginning under the same key. -/
structure Ghash where
  /-- The hash key. -/
  key : Block
  /-- The sum over the blocks completed so far. -/
  sum : Block
  /-- The bytes of the block under way, with zeros after them. -/
  pending : Block
  /-- How many bytes of `pending` have arrived. -/
  filled : Nat
  deriving DecidableEq, Repr

namespace Ghash

/-- One step of the sum: add a block, multiply by the key. By Horner's
rule the first block ends up with the highest power of the key. -/
def step (key sum block : Block) : Block := (sum.xor block).mul key

/-- **The hash of a list of blocks.** This is the hash of the standard
for an input that is there as a whole. -/
def ofBlocks (key : Block) (blocks : List Block) : Block :=
  blocks.foldl (step key) Block.zero

/-- The empty stream. The sum of no block is zero, and no byte is
pending. -/
def start (key : Block) : Ghash := ⟨key, Block.zero, Block.zero, 0⟩

/-- Takes in the next byte, completing a block with every sixteenth. The
bytes behind those that have arrived are zeros at all times, so that a
block that is never completed can be added as it is. -/
def push (g : Ghash) (byte : UInt8) : Ghash :=
  if h : g.filled < 15 then
    { g with pending := g.pending.set g.filled byte, filled := g.filled + 1 }
  else
    { g with
      sum := step g.key g.sum (g.pending.set 15 byte)
      pending := Block.zero
      filled := 0 }

/-- **Takes in the next bytes.** How a stream is cut into calls makes no
difference. It is a fold, like the reading of any other stream. -/
def absorb (g : Ghash) (bytes : Bytes) : Ghash := bytes.foldl push g

@[simp] theorem absorb_nil (g : Ghash) : g.absorb [] = g := rfl

theorem absorb_append (g : Ghash) (a b : Bytes) :
    g.absorb (a ++ b) = (g.absorb a).absorb b :=
  List.foldl_append

/-- **Completes the block under way with zeros.** At a block boundary
there is nothing to complete. Associated data is closed in this way
before the first byte of the message, and the message before the block
of lengths. -/
def flush (g : Ghash) : Ghash :=
  if g.filled = 0 then g
  else
    { g with
      sum := step g.key g.sum g.pending
      pending := Block.zero
      filled := 0 }

/-- **The hash of the stream closed by one more block**: what is pending
is completed first. The stream itself goes on as it was. Asking for it
twice gives the same hash twice. -/
def digest (g : Ghash) (last : Block) : Block :=
  step g.key g.flush.sum last

end Ghash

end Strongbox
