import Strongbox.Bytes

/-!
# The BLAKE3 compression function

Everything BLAKE3 computes goes through one function from a `Node` – a
chaining value, a block of sixteen words, a counter, the length of the
block and a set of flags – to sixteen words. The first eight of them are
the chaining value for what comes next; all sixteen, taken from the root
with the counter running, are the output.

## The state

The state is sixteen words, four rows of four: the chaining value, half
of the initial value, and a row of counter, length and flags. A round
mixes the four columns and then the four diagonals, each with two words
of the block, so that after one round every word of the state has met
every other one. Seven rounds are made, and between two of them the
words of the block are put in another order. The result is the two
halves of the state added, and in its second half the chaining value
added once more.

## Flags

What a block is part of goes into the state with it, so that a block
cannot be taken for one in another place: the first of a chunk for one
in the middle, an inner node for a chunk, a keyed hash for one in a
context. The flags are bits of one word and are set by adding, which is
the same as long as none is set twice.
-/

namespace Strongbox.Blake3

/-- Eight words: a chaining value, or a key. Four more words of the
state are made from a constant, and four from counter, length and flags. -/
abbrev Chain := Vector UInt32 8

/-- Sixteen words: a block, or the state while it is compressed. Indices
into it are bounded by its type, so that no look into it can fail. -/
abbrev Words := Vector UInt32 16

/-- The initial chaining value without a key, which is also mixed into
every compression. A hash in a context begins with it, and a keyed one
with its key. -/
def initial : Chain :=
  #v[0x6A09E667, 0xBB67AE85, 0x3C6EF372, 0xA54FF53A,
    0x510E527F, 0x9B05688C, 0x1F83D9AB, 0x5BE0CD19]

/-- The order in which each round takes the words of the round before
it. It is applied after each round, and so it is made use of six times. -/
def schedule : Vector (Fin 16) 16 :=
  #v[2, 6, 3, 10, 7, 0, 4, 13, 1, 11, 12, 5, 9, 14, 15, 8]

/-- What a block is part of. Flags are added up. Each of them says where
in the hash a block stands, or which of the hashes it is. -/
inductive Flag where
  /-- The block begins a chunk. -/
  | chunkStart
  /-- The block ends a chunk. -/
  | chunkEnd
  /-- The block holds two chaining values. -/
  | parent
  /-- The block yields output. -/
  | root
  /-- The hash is keyed. -/
  | keyed
  /-- The hash turns a context into a key. -/
  | context
  /-- The hash is keyed by a context. -/
  | material
  deriving DecidableEq, Repr

/-- The bit of a flag. There is one bit for each, and they do not
overlap. -/
def Flag.bit : Flag → UInt32
  | chunkStart => 1
  | chunkEnd => 2
  | parent => 4
  | root => 8
  | keyed => 16
  | context => 32
  | material => 64

/-- **What is compressed.** Nothing else goes into a compression, so
that two nodes that are equal give the same words. -/
structure Node where
  /-- The chaining value, or the key. -/
  chain : Chain
  /-- The block, as words. -/
  block : Words
  /-- The number of the chunk, or of the output block. -/
  counter : Nat
  /-- How many bytes of the block count. -/
  length : Nat
  /-- The flags. -/
  flags : UInt32

/-- Rotation of a word to the right by `n` bits, for `0 < n < 32`. The
four amounts that occur are sixteen, twelve, eight and seven. -/
@[inline] def rotateRight (w n : UInt32) : UInt32 :=
  (w >>> n) ||| (w <<< (32 - n))

/-- The mixing of four words of the state with two words of the block.
Every step changes one word by the ones before it, and can be undone. -/
def mix (s : Words) (a b c d : Fin 16) (x y : UInt32) : Words :=
  let s := s.set a (s[a] + s[b] + x)
  let s := s.set d (rotateRight (s[d] ^^^ s[a]) 16)
  let s := s.set c (s[c] + s[d])
  let s := s.set b (rotateRight (s[b] ^^^ s[c]) 12)
  let s := s.set a (s[a] + s[b] + y)
  let s := s.set d (rotateRight (s[d] ^^^ s[a]) 8)
  let s := s.set c (s[c] + s[d])
  s.set b (rotateRight (s[b] ^^^ s[c]) 7)

/-- One round: the columns of the state, then its diagonals. The words
of the block are used in order, each of them once. -/
def round (s m : Words) : Words :=
  let s := mix s 0 4 8 12 m[0] m[1]
  let s := mix s 1 5 9 13 m[2] m[3]
  let s := mix s 2 6 10 14 m[4] m[5]
  let s := mix s 3 7 11 15 m[6] m[7]
  let s := mix s 0 5 10 15 m[8] m[9]
  let s := mix s 1 6 11 12 m[10] m[11]
  let s := mix s 2 7 8 13 m[12] m[13]
  mix s 3 4 9 14 m[14] m[15]

/-- A number of rounds, the words of the block reordered between them.
The recursion is on their number, which is seven. -/
def rounds : Nat → (s m : Words) → Words
  | 0, s, _ => s
  | n + 1, s, m => rounds n (round s m) (Vector.ofFn fun i => m[schedule[i]])

/-- **The compression function.** The counter takes two words, the low
one first. -/
def Node.compress (n : Node) : Words :=
  let h := n.chain
  let s : Words :=
    #v[h[0], h[1], h[2], h[3], h[4], h[5], h[6], h[7],
      initial[0], initial[1], initial[2], initial[3],
      UInt32.ofNat n.counter, UInt32.ofNat (n.counter / 0x100000000),
      UInt32.ofNat n.length, n.flags]
  let s := rounds 7 s n.block
  #v[s[0] ^^^ s[8], s[1] ^^^ s[9], s[2] ^^^ s[10], s[3] ^^^ s[11],
    s[4] ^^^ s[12], s[5] ^^^ s[13], s[6] ^^^ s[14], s[7] ^^^ s[15],
    s[8] ^^^ h[0], s[9] ^^^ h[1], s[10] ^^^ h[2], s[11] ^^^ h[3],
    s[12] ^^^ h[4], s[13] ^^^ h[5], s[14] ^^^ h[6], s[15] ^^^ h[7]]

/-- The chaining value of a node. It is the first half of what the
compression gives. -/
def Node.chaining (n : Node) : Chain :=
  let s := n.compress
  #v[s[0], s[1], s[2], s[3], s[4], s[5], s[6], s[7]]

end Strongbox.Blake3
