import Strongbox.Random.Error
import Strongbox.Bytes

/-!
# Random numbers from the processor

A processor's instruction for random numbers gives a 64-bit word, or
nothing when it has none ready. It is tried again a limited number of
times for each word, and the words are written over the destination in
chunks of eight bytes, the least significant byte first. When a word
cannot be had, the chunks before it stay written and the others are not
touched.

The library is built without such instructions; the two sources that
would use them are always unsupported.

## Attempts

The attempts are numbered through, over all the words of a destination,
and what the instruction does at each of them is a function of its
number. So the outcome of filling a destination is a function of the
destination and of that sequence, and the number of the attempt after
the last one tells how many have been made. Ten attempts are made for a
word and never more; a success ends them.

What a filled destination looks like is not said by this recursion
alone. The proofs say it without one: each chunk holds the word of the
first success among ten attempts, the searches stand one behind the
other, and what is behind a search that found nothing is as it was.
-/

namespace Strongbox.Random.Hardware

/-- How often the instruction is tried for one word. It is the bound for
each word, not for the whole destination. -/
def maxRetries : Nat := 10

/-- The bytes of a word. A chunk has as many, unless it is the last one. -/
def wordLength : Nat := 8

/-- Whether the instructions can be used. Without them the two sources
that would try them say that they are unsupported. -/
def available : Bool := false

/-- **The first word among a number of attempts**, if there is one, and
the number of the attempt after the last one made. The recursion is on
how many attempts are left. -/
def firstWord (attempt : Nat → Option UInt64) :
    (retries start : Nat) → Option UInt64 × Nat
  | 0, start => (none, start)
  | retries + 1, start =>
    match attempt start with
    | some word => (some word, start + 1)
    | none => firstWord attempt retries (start + 1)

/-- **How a destination was filled.** The three are what a caller can
tell: how it ended, what stands there now, and how often the instruction
has run. -/
structure Filled where
  /-- Success, or the failure. -/
  outcome : Except EntropyError Unit
  /-- The destination afterwards. -/
  bytes : Bytes
  /-- The attempts made in all. -/
  attempts : Nat

/-- **Fills a destination word by word**, from the attempt numbered
`start` on. A last chunk of less than eight bytes takes the leading
bytes of its word. The rest of the destination is filled first in the
recursion and last in time: its attempts come after those of the chunk. -/
def fillWords (attempt : Nat → Option UInt64) (dest : Bytes) (start : Nat) :
    Filled :=
  if dest.isEmpty then ⟨.ok (), [], start⟩
  else
    match firstWord attempt maxRetries start with
    | (none, start) => ⟨.error (.hardwareExhausted maxRetries), dest, start⟩
    | (some word, start) =>
      let rest := fillWords attempt (dest.drop wordLength) start
      let chunk := (Bytes.littleEndian wordLength word.toNat).take dest.length
      { rest with bytes := chunk ++ rest.bytes }
termination_by dest.length
decreasing_by
  cases dest with
  | nil => contradiction
  | cons x xs =>
    simp only [wordLength, List.length_drop, List.length_cons]; omega

end Strongbox.Random.Hardware
