import Strongbox.Blake3.Compression

/-!
# BLAKE3

The hash function BLAKE3 in its two keyed forms, with output of any
length.

The input is cut into chunks of 1024 bytes, and the chunks are the
leaves of a binary tree whose left subtrees are complete. A chunk chains
over its blocks of 64 bytes; an inner node compresses the chaining
values of its two children. The root, compressed once more for every 64
bytes of output with a counter running, yields as many bytes as are
asked for – so a longer output only continues a shorter one.

`keyed` is the hash under a key of 32 bytes. `deriveKey` is the hash of
material under a key that is itself the hash of a context.

## What is used of it

The generator calls `keyed` and `deriveKey` and compares what comes out.
What is proved of the generator holds for any function with their types
whose output has the length asked for; that the tests run it with this
one is what the definitions here are for. The two length lemmas at the
end are the whole of what a proof may ask of them.

## Recursion

A chunk is taken off block by block, and the tree is built from the top:
an input of more than one chunk is cut in two, where the left part is
the largest power of two of chunks that leaves something for the right
one. Both parts are shorter than the whole, which is `leftLength_lt` and
the reason why the recursion ends. The number of its first chunk is
carried along to the leaves.
-/

namespace Strongbox.Blake3

/-- The bytes of a block. It is sixteen words of four bytes. -/
def blockLength : Nat := 64

/-- The bytes of a chunk. It is sixteen blocks. -/
def chunkLength : Nat := 1024

/-- Bytes read as little-endian words, with zeros where they end. A
block that is not full is filled up in this way, and its length is told
apart from it. -/
def wordsOf (bytes : Bytes) (count : Nat) : Vector UInt32 count :=
  Vector.ofFn fun i =>
    UInt32.ofNat (Bytes.ofLittleEndian ((bytes.drop (4 * i)).take 4))

/-- **The last node of a chunk**, reached by chaining over its blocks.
The empty chunk has one empty block. The first block and the last one
carry flags of their own, and a chunk of one block carries both. -/
def chunkNode (flags : UInt32) (counter : Nat) (chain : Chain) (start : UInt32)
    (bytes : Bytes) : Node :=
  if bytes.length ≤ blockLength then
    { chain
      block := wordsOf bytes 16
      counter
      length := bytes.length
      flags := flags + start + Flag.chunkEnd.bit }
  else
    let node : Node :=
      { chain
        block := wordsOf bytes 16
        counter
        length := blockLength
        flags := flags + start }
    chunkNode flags counter node.chaining 0 (bytes.drop blockLength)
termination_by bytes.length
decreasing_by
  simp only [blockLength, List.length_drop] at *
  omega

/-- The bytes that go into the left subtree: the largest power of two of
chunks that leaves something for the right one. It is a whole number of
chunks, so that only the last chunk of an input can be short. -/
def leftLength (length : Nat) : Nat :=
  chunkLength <<< ((length - 1) / chunkLength).log2

/-- The left subtree is neither nothing nor everything. This is what
makes the recursion over the tree come to an end. -/
theorem leftLength_lt {length : Nat} (h : chunkLength < length) :
    0 < leftLength length ∧ leftLength length < length := by
  have hq : (length - 1) / chunkLength ≠ 0 := by
    simp only [chunkLength] at *
    omega
  have hle := Nat.log2_self_le hq
  have hpos := Nat.two_pow_pos ((length - 1) / chunkLength).log2
  simp only [leftLength, chunkLength, Nat.shiftLeft_eq] at *
  omega

/-- **The root of the tree over an input.** `counter` is the number of
its first chunk. It is not compressed yet, because the root is
compressed in another way than the nodes below it. -/
def treeNode (key : Chain) (flags : UInt32) (counter : Nat) (bytes : Bytes) :
    Node :=
  if h : bytes.length ≤ chunkLength then
    chunkNode flags counter key Flag.chunkStart.bit bytes
  else
    let left := leftLength bytes.length
    have := leftLength_lt (Nat.lt_of_not_le h)
    let first := (treeNode key flags counter (bytes.take left)).chaining
    let second :=
      (treeNode key flags (counter + left / chunkLength)
          (bytes.drop left)).chaining
    { chain := key
      block := first ++ second
      counter := 0
      length := blockLength
      flags := flags + Flag.parent.bit }
termination_by bytes.length
decreasing_by
  · rw [List.length_take]; omega
  · rw [List.length_drop]; omega

/-- One block of output of a root. The counter is that of the block, and
stands where the number of a chunk stands in a leaf. -/
def Node.outputBlock (node : Node) (counter : Nat) : Bytes :=
  let node := { node with counter, flags := node.flags + Flag.root.bit }
  node.compress.toList.flatMap Bytes.ofWord

/-- **The first `n` bytes of output of a root.** One block more than is
needed is made if `n` is a multiple of the block length, and cut off. -/
def Node.output (node : Node) (n : Nat) : Bytes :=
  ((List.range (n / blockLength + 1)).flatMap node.outputBlock).take n

/-- **The hash of an input under a key** of 32 bytes, `n` bytes of it. A
generator makes its next key and its next words in this way. -/
def keyed (key input : Bytes) (n : Nat) : Bytes :=
  (treeNode (wordsOf key 8) Flag.keyed.bit 0 input).output n

/-- **The hash of key material in a context**, `n` bytes of it. There
are two hashes: the first one turns the context into a key, and the
second one is keyed by it. -/
def deriveKey (context material : Bytes) (n : Nat) : Bytes :=
  let key := (treeNode initial Flag.context.bit 0 context).output 32
  (treeNode (wordsOf key 8) Flag.material.bit 0 material).output n

/-! ## Output has the length asked for -/

theorem length_outputBlock (node : Node) (counter : Nat) :
    (node.outputBlock counter).length = blockLength := by
  simp [Node.outputBlock, List.length_flatMap, List.map_const', blockLength]

@[simp] theorem length_output (node : Node) (n : Nat) :
    (node.output n).length = n := by
  have h : n ≤ (n / blockLength + 1) * blockLength := by
    simp only [blockLength]
    omega
  simpa [Node.output, List.length_flatMap, length_outputBlock,
    List.map_const'] using Nat.min_eq_left h

@[simp] theorem length_keyed (key input : Bytes) (n : Nat) :
    (keyed key input n).length = n :=
  length_output _ n

@[simp] theorem length_deriveKey (context material : Bytes) (n : Nat) :
    (deriveKey context material n).length = n :=
  length_output _ n

end Strongbox.Blake3
