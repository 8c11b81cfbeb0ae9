import Strongbox.Random.Rng

/-!
# What a generator hashes

A generator uses its hash under a key for two things: to make the next
block, and to take new material in. A `Hashing` is one such use, told by
what it is for, and a journal is a list of them in the order in which
they are made. Each is read off the state that a call finds. A word
needs a new block only when the one before it is used up; a seed of a
caller is taken in unless it is empty; and whoever gets hold of the
generator itself can take in what they like, under a label of their own.

Every use of the hash makes the next key (`Hashing.nextKey`). A journal
can therefore be held against the generator: from the key at the
beginning it has to lead to the key at the end.

## Two journals

Two different uses of the hash must not get the same input. What tells
them apart – the purpose, the material, the number of a block – has to
be told by the string that is hashed, within one generator and between
any two of them, with sources and histories of their own.

A use under a label of someone else's choice is part of a journal and is
marked (`Hashing.isDirect`). Nothing can be promised for such labels,
since they may be written to look like anything; `Rng.Call.isDirect`
tells the calls that make them, and the histories that are spoken of are
those without such calls.
-/

namespace Strongbox.Random

/-- **What a generator with its sources takes material in for.** Each of
them has a label of its own. -/
inductive Purpose where
  /-- The second draw, at the beginning. -/
  | augment
  /-- Material of a caller. -/
  | callerSeed
  /-- A further draw. -/
  | cascadeSeed
  deriving DecidableEq, Repr

/-- The label of a purpose. It is the label that the generator uses, by
name. -/
def Purpose.label : Purpose → Bytes
  | augment => Rng.augmentLabel
  | callerSeed => Rng.callerLabel
  | cascadeSeed => Rng.cascadeLabel

/-- **One use of the hash under a key.** The three tell what is hashed,
and under which circumstances. -/
inductive Hashing where
  /-- For the next block, with the counter of blocks. -/
  | refill (counter : UInt64)
  /-- For new material that is taken in for a purpose. -/
  | reseed (purpose : Purpose) (material : Bytes)
  /-- For new material under a label that is not of the library's
  choice. -/
  | direct (label material : Bytes)
  deriving DecidableEq, Repr

namespace Hashing

/-- **What is hashed.** The key is not part of it: it keys the hash, and
is told by the journal before it. -/
def input : Hashing → Bytes
  | refill counter => Drbg.refillInput counter
  | reseed purpose material => Drbg.reseedInput purpose.label material
  | direct label material => Drbg.reseedInput label material

/-- How much of the output is used. A block and the key before it are
made by one use. -/
def size : Hashing → Nat
  | refill _ => Drbg.stateLength
  | reseed _ _ | direct _ _ => Drbg.keyLength

/-- **The key that comes of it.** It is the beginning of the output in
all three cases. -/
def nextKey [KeyedHash] (key : Bytes) (hashing : Hashing) : Bytes :=
  (KeyedHash.keyed key hashing.input hashing.size).take Drbg.keyLength

/-- The counter that is hashed, if one is. Only blocks are counted, and
a reseeding leaves the count alone. -/
def counter? : Hashing → Option UInt64
  | refill counter => some counter
  | reseed _ _ | direct _ _ => none

/-- Whether the label is of someone else's choice. The generator with
its sources has three labels of its own, and they are not. -/
def isDirect : Hashing → Bool
  | direct _ _ => true
  | refill _ | reseed _ _ => false

end Hashing

/-- **The counters that are hashed**, in order. Two that are equal would
be two equal inputs under what may be one key. -/
def blockCounters (journal : List Hashing) : List UInt64 :=
  journal.filterMap Hashing.counter?

namespace Drbg

/-- What is hashed for the next word. It depends on the cursor alone
whether a block is needed. -/
def wordJournal (d : Drbg) : List Hashing :=
  if d.cursor + wordLength > blockLength then [.refill d.counter] else []

variable [KeyedHash]

/-- What is hashed for the next `count` words. The state is carried on
from word to word. -/
def wordsJournal (d : Drbg) : (count : Nat) → List Hashing
  | 0 => []
  | count + 1 => d.wordJournal ++ wordsJournal d.word.2 count

/-- **What is hashed for a call.** A description needs no hash. -/
def journal (d : Drbg) : Call → List Hashing
  | .reseed label material => [.direct label material]
  | .word => d.wordsJournal (wordsFor Call.word.size)
  | .wide => d.wordsJournal (wordsFor Call.wide.size)
  | .fill n => d.wordsJournal (wordsFor n)
  | .describe => []

end Drbg

namespace Rng

/-- **What is hashed for a call.** An empty seed is refused and hashes
nothing. -/
def callJournal (r : Rng) (h : Host) : Call → List Hashing
  | .seed material =>
    if material.isEmpty then [] else [.reseed .callerSeed material]
  | .randomSeed =>
    [.reseed .cascadeSeed (r.cascade.draw (Bytes.zeros seedLength) h).bytes]
  | .bytes n => r.drbg.wordsJournal (wordsFor n)
  | .generator call => r.drbg.journal call
  | .describe => []

/-- **What is hashed for a history of calls.** What a call hashes is
read off the state that the calls before it have left. -/
def journal (r : Rng) (h : Host) : List Call → List Hashing
  | [] => []
  | call :: calls =>
    let (_, r', h') := r.step h call
    r.callJournal h call ++ journal r' h' calls

/-- **What is hashed from the making of a generator on**: its second
draw, and then what the history asks for. The seed itself is hashed
without a key, in a context, and is not in it. -/
def journalFrom (cascade : Cascade) (h : Host) (calls : List Call) :
    List Hashing :=
  let first := cascade.draw (Bytes.zeros seedLength) h
  let second := first.sources.draw first.bytes first.host
  let (made, h) := ofCascade cascade h
  .reseed .augment second.bytes :: made.journal h calls

/-- Whether a call takes material in under a label of the caller's
choice. Only whoever holds the generator itself can make one. -/
def Call.isDirect : Call → Bool
  | generator (.reseed _ _) => true
  | _ => false

end Rng

end Strongbox.Random
