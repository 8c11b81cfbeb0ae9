import Strongbox.Random.Drbg

/-!
# The generator as a queue of words

What a `Drbg` hands out, said without block and cursor: a key, a counter
and the words that are waiting. A word comes from the queue; when the
queue is empty, one hash under the key yields the next key and sixteen
new words. Reseeding replaces the key and empties the queue. Nothing is
wiped here, because nothing is kept that has been handed out.

## What is hashed

The queue is the reference a generator is held to, so it takes nothing
from the generator but the calls it answers. Every string that is hashed
is written out here, and so is every length:

* at the beginning, in the context `bastion-rand 2026-01-01 generator
  instantiate v1`, the length of the seed material in eight bytes and
  the material behind it, for a key of 32 bytes;
* on reseeding, under the key there is, the label, the length of the new
  material in eight bytes and the material, for a key of 32 bytes;
* for new words, under the key there is, the counter in eight bytes, for
  96 bytes, of which 32 are the next key and 64 are sixteen words.

Numbers stand with the least significant byte first. `bytesOf` and
`wordsOf` say so in each direction, by the place of each byte and with
no recursion in common with the one the generator writes numbers by. The
hash itself is the one thing shared: it is any `KeyedHash`, and what
comes out of it is compared and never looked into.

## Requests

All requests are made of words. A 64-bit word is two of them, the first
one low, and a number of bytes is the beginning of as many words as
cover it. A word that has been begun is used up, whatever is left of it.
-/

namespace Strongbox.Random

/-- **A key, a counter and the words that are waiting.** The state of
the reference: what the generator keeps in one block of bytes with a
cursor is a list here, which ends where the block does. -/
structure WordQueue where
  /-- The key of the next hash. -/
  key : Bytes
  /-- How many times the queue has been filled, modulo `2 ^ 64`. -/
  counter : UInt64
  /-- The words that are waiting, the next one first. -/
  words : List UInt32
  deriving DecidableEq, Repr

namespace WordQueue

/-- **A number in `w` bytes**, least significant first: byte `i` is the
number shifted down by the `i` bytes before it, of which a byte keeps
the low eight bits. -/
def bytesOf (w n : Nat) : Bytes :=
  (List.range w).map fun i => UInt8.ofNat (n >>> (8 * i))

/-- **Bytes read as words**, four to a word and the least significant
byte first. What is less than a word is dropped. -/
def wordsOf : Bytes → List UInt32
  | a :: b :: c :: d :: rest =>
    UInt32.ofNat
      (a.toNat + 256 * b.toNat + 65536 * c.toNat + 16777216 * d.toNat)
        :: wordsOf rest
  | _ => []

variable [KeyedHash]

/-- **The queue of seed material.** The key is the hash of the length of
the material and the material in the generator's context, and there is
no word yet: the first request fills the queue. -/
def ofSeed (material : Bytes) : WordQueue where
  key := KeyedHash.deriveKey
    (Bytes.ascii "bastion-rand 2026-01-01 generator instantiate v1")
    (bytesOf 8 material.length ++ material) 32
  counter := 0
  words := []

/-- **Takes in new material under a label.** The old key is hashed into
the next one together with the material, and the words that were waiting
are lost. The counter stays and is not begun again. -/
def reseed (q : WordQueue) (label material : Bytes) : WordQueue :=
  { q with
    key := KeyedHash.keyed q.key
      (label ++ bytesOf 8 material.length ++ material) 32
    words := [] }

/-- **The queue filled anew.** One hash of the counter under the key
gives 96 bytes: the next key and sixteen words. -/
def refill (q : WordQueue) : WordQueue :=
  let output := KeyedHash.keyed q.key (bytesOf 8 q.counter.toNat) 96
  { key := output.take 32
    counter := q.counter + 1
    words := wordsOf (output.drop 32) }

/-- **The next word**: the first one that is waiting, or the first one
of the queue filled anew. -/
def word (q : WordQueue) : UInt32 × WordQueue :=
  match q.words with
  | w :: rest => (w, { q with words := rest })
  | [] =>
    (q.refill.words.headD 0,
      { q.refill with words := q.refill.words.tail })

/-- **The next words**, so many of them and one after another. -/
def take (q : WordQueue) : Nat → List UInt32 × WordQueue
  | 0 => ([], q)
  | count + 1 =>
    let (word, q) := q.word
    let (words, q) := q.take count
    (word :: words, q)

/-- **The next 64-bit word**: the number of which the next word is the
low half and the one after it the high half. -/
def wide (q : WordQueue) : UInt64 × WordQueue :=
  let (low, q) := q.word
  let (high, q) := q.word
  (UInt64.ofNat (low.toNat + 0x100000000 * high.toNat), q)

/-- **A number of bytes**: the first ones of as many words as cover it.
The rest of the last word is lost. -/
def fill (q : WordQueue) (n : Nat) : Bytes × WordQueue :=
  let (words, q) := q.take ((n + 3) / 4)
  ((words.flatMap fun w => bytesOf 4 w.toNat).take n, q)

/-! ## Histories -/

/-- **Answers one call** that a generator answers. The description is
the text every generator shows, and leaves the queue as it is. -/
def step (q : WordQueue) : Drbg.Call → Drbg.Reply × WordQueue
  | .word => (.word q.word.1, q.word.2)
  | .wide => (.wide q.wide.1, q.wide.2)
  | .fill n => (.bytes (q.fill n).1, (q.fill n).2)
  | .reseed label material => (.done, q.reseed label material)
  | .describe => (.text "Generator \x7b state: \"REDACTED\" \x7d", q)

/-- **Answers a history of calls**, and gives the queue after it. -/
def run (q : WordQueue) : List Drbg.Call → List Drbg.Reply × WordQueue
  | [] => ([], q)
  | call :: calls =>
    let (reply, q) := q.step call
    let (replies, q) := run q calls
    (reply :: replies, q)

end WordQueue

end Strongbox.Random
