import Strongbox.Random.Drbg

/-!
# The generator without erasure

What a `Drbg` does, by a generator that forgets nothing of what the hash
gave it last. A `Ledger` has the latest output of the hash, whole, and
counts the words of it that have been handed out. The first 32 bytes of
an output are the key, and what is behind them is the block: there is
one behind a key that was made for a new block, and none behind one that
was made of a seed.

## What it is for

A `Drbg` wipes each word as it hands it out and writes a new output over
the old one, so that its state has to be compared with something that
still has what was wiped. The ledger is that: from it one can read what
the state must be, namely the key, zeros for the words that are gone,
and the rest of the block. That the state holds nothing else of the
outputs so far is the meaning of erasure, and it is proved for every
history, by holding the two against each other.

The ledger tells a block that is used up by its length: there is none
behind a key made of a seed, and all of one has been handed out after
sixteen words. Both ask for a new block.
-/

namespace Strongbox.Random

/-- **The latest output of the hash**, and how much of it has been
handed out. The words that have been handed out are still in `output`. -/
structure Ledger where
  /-- All that the hash gave last, for a seed or for a new block. -/
  output : Bytes
  /-- How many words of its block have been handed out. -/
  handedOut : Nat
  /-- How many blocks have been made. -/
  counter : UInt64
  deriving DecidableEq, Repr

namespace Ledger

/-- The key of the next hash. It is the beginning of the output, as it
is of the state. -/
def key (l : Ledger) : Bytes := l.output.take Drbg.keyLength

/-- The block of the latest output. It is empty behind a key that was
made of a seed. -/
def block (l : Ledger) : Bytes := l.output.drop Drbg.keyLength

/-- **What has not been handed out of the block yet.** The block is
taken from the front, word by word. -/
def undelivered (l : Ledger) : Bytes :=
  l.block.drop (Drbg.wordLength * l.handedOut)

variable [KeyedHash]

/-- The ledger of seed material. No block has been made. -/
def ofSeed (material : Bytes) : Ledger where
  output := KeyedHash.deriveKey Drbg.context (Drbg.seedInput material)
    Drbg.keyLength
  handedOut := 0
  counter := 0

/-- **Takes in new material under a label.** The output is as long as a
key, and so there is no block behind it. -/
def reseed (l : Ledger) (label material : Bytes) : Ledger :=
  { l with
    output := KeyedHash.keyed l.key (Drbg.reseedInput label material)
      Drbg.keyLength
    handedOut := 0 }

/-- **A new key and a new block.** The counter is hashed under the key
that there was. -/
def refill (l : Ledger) : Ledger where
  output := KeyedHash.keyed l.key (Drbg.refillInput l.counter) Drbg.stateLength
  handedOut := 0
  counter := l.counter + 1

/-- The next word of the block, handed out. Nothing is wiped: the count
alone goes up. -/
def takeWord (l : Ledger) : UInt32 × Ledger :=
  (UInt32.ofNat (Bytes.ofLittleEndian (l.undelivered.take Drbg.wordLength)),
    { l with handedOut := l.handedOut + 1 })

/-- **The next word**, from a new block if all of the current one has
been handed out. Whether a block is used up is asked of the bytes, not
of a cursor. -/
def word (l : Ledger) : UInt32 × Ledger :=
  if l.undelivered.isEmpty then l.refill.takeWord else l.takeWord

/-- **The random bytes in the answer to a call**: the first ones of as
many words as cover what is asked for. Calls that ask for none take no
word. -/
def step (l : Ledger) : Drbg.Call → Bytes × Ledger
  | .reseed label material => ([], l.reseed label material)
  | call =>
    let (words, l) := takeWords word (wordsFor call.size) l
    ((words.flatMap Bytes.ofWord).take call.size, l)

/-- **The random bytes in the answers to a history of calls**, and the
ledger after it. There is one string of bytes for every call. -/
def run (l : Ledger) : List Drbg.Call → List Bytes × Ledger
  | [] => ([], l)
  | call :: calls =>
    let (output, l) := l.step call
    let (outputs, l) := run l calls
    (output :: outputs, l)

end Ledger

end Strongbox.Random
