import Strongbox.Block

/-!
# Counter mode keystreams

Counter mode turns a block cipher into a stream of bytes: it encrypts
one counter block after another and hands out the results byte by byte.
A message is encrypted, and decrypted again, by exclusive or with that
stream.

## The state between two bytes

A `Keystream` knows the next counter block to encrypt, the last result
and how many of its bytes are spent. A fresh one has spent all sixteen
of a block that was never used, so the first byte asked for encrypts the
first counter block. A message may therefore arrive in pieces of any
length.

The block cipher and the step from one counter block to the next are
parameters: what is said here holds of every mode that counts.

## Pieces

`apply` is defined byte by byte, by a loop that gathers its result in
reverse and is what runs. `apply_cons` and `apply_append` are the
equations by which everything else is proved: the first one is the
recursion, and the second one says that the pieces of a message may be
cut anywhere. No proof outside this module looks into the loop.

`byteAt` says the same stream without a state. The two are joined in
`Keystream.Position`, and a theorem about a whole message is stated with
`byteAt` alone.
-/

namespace Strongbox

/-- **A keystream between two of its bytes.** Counter and block are kept
together because the block may be used up or not: what the next byte is
depends on `spent`, and only every sixteenth byte costs an encryption. -/
structure Keystream where
  /-- The counter block to encrypt next. -/
  counter : Block
  /-- The keystream block being handed out. -/
  block : Block
  /-- How many bytes of `block` have been handed out. -/
  spent : Nat
  deriving DecidableEq, Repr

namespace Keystream

/-- The keystream that begins with the encryption of a counter block. No
block has been encrypted yet, and the one that is there counts as used
up. So a stream that no byte is asked of encrypts nothing. -/
def start (counter : Block) : Keystream := ⟨counter, Block.zero, 16⟩

variable (cipher next : Block → Block)

/-- **Byte `j` of the stream that begins with a counter block**, said
without a state: the blocks after it, encrypted, one behind the other.
It is a function of the position alone, which makes it the right notion
for a message that is there as a whole. -/
def byteAt (counter : Block) (j : Nat) : UInt8 :=
  (cipher (Nat.repeat next (j / 16) counter)).get ⟨j % 16, Block.mod_lt j⟩

/-- **The next byte of the stream**, and the stream after it. When the
block is used up, the counter block is encrypted and the counter goes
on, and the byte handed out is the first one of the new block. -/
@[inline] def pull (k : Keystream) : UInt8 × Keystream :=
  if h : k.spent < 16 then
    (k.block[k.spent], { k with spent := k.spent + 1 })
  else
    let block := cipher k.counter
    (block[0], { counter := next k.counter, block, spent := 1 })

/-- **Exclusive or of a piece of a message with the stream**, and the
stream after it. The direction does not matter: a plaintext becomes a
ciphertext, and a ciphertext a plaintext. -/
def apply (k : Keystream) (bytes : Bytes) : Bytes × Keystream :=
  go k [] bytes
where
  /-- Carries the bytes done so far, last one first. -/
  go (k : Keystream) (done : Bytes) : Bytes → Bytes × Keystream
    | [] => (done.reverse, k)
    | byte :: rest =>
      let pulled := k.pull cipher next
      go pulled.2 ((byte ^^^ pulled.1) :: done) rest

/-- What has been done before only stands in front of the result. So a
proof about `apply` may take the list of what has been done to be empty. -/
theorem go_eq (k : Keystream) (done bytes : Bytes) :
    apply.go cipher next k done bytes
      = (done.reverse ++ (k.apply cipher next bytes).1,
          (k.apply cipher next bytes).2) := by
  unfold apply
  induction bytes generalizing k done with
  | nil => simp [apply.go]
  | cons byte rest ih =>
    simp only [apply.go]
    rw [ih, ih _ [_]]
    simp

/-- An empty piece asks for no byte, and leaves the stream where it is. -/
@[simp] theorem apply_nil (k : Keystream) : k.apply cipher next [] = ([], k) :=
  rfl

/-- The first byte of a piece is combined with the next byte of the
stream. This is the recursion that proofs about pieces go by. -/
theorem apply_cons (k : Keystream) (byte : UInt8) (rest : Bytes) :
    k.apply cipher next (byte :: rest)
      = ((byte ^^^ (k.pull cipher next).1)
            :: ((k.pull cipher next).2.apply cipher next rest).1,
          ((k.pull cipher next).2.apply cipher next rest).2) := by
  rw [apply, apply.go, go_eq]
  rfl

/-- **Cutting a piece in two makes no difference.** The stream after the
first part is the one the second part begins with, and the results stand
one behind the other. -/
theorem apply_append (k : Keystream) (a b : Bytes) :
    k.apply cipher next (a ++ b)
      = ((k.apply cipher next a).1
          ++ ((k.apply cipher next a).2.apply cipher next b).1,
          ((k.apply cipher next a).2.apply cipher next b).2) := by
  induction a generalizing k with
  | nil => rfl
  | cons byte rest ih => simp [apply_cons, ih]

/-- A piece keeps its length. A stream of bytes does not end, so that no
piece is too long for it. -/
@[simp] theorem length_apply (k : Keystream) (bytes : Bytes) :
    (k.apply cipher next bytes).1.length = bytes.length := by
  induction bytes generalizing k with
  | nil => rfl
  | cons byte rest ih => simp [apply_cons, ih]

end Keystream

end Strongbox
