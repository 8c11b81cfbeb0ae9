import Strongbox.Random.Error
import Strongbox.Bytes

/-!
# The host

Random numbers begin outside: with the kernel, which can be asked for
bytes, and with the monotonic clock, which can be read. What these two
will answer is not known to the library, only that it is answered in
order. A `Feed` is such a sequence of answers together with how many of
them have been taken, and a `Host` is the two feeds.

Passing the host along makes every function here a function of its
arguments – and makes it countable how often the outside was asked.

## Answers in order

A feed has an answer for every number, so that the outside never runs
out: the statements about generators are about all feeds, and none of
them has to say what happens when there is nothing left. How many
answers have been taken is part of the state, and that two runs have
asked the outside equally often is an equation between hosts.

## What is not told

A reading of the clock is a pair of numbers as the system gives them,
with no promise about their sizes; a reading of the kernel is a pattern
or an error number. How long a read takes, and whether it is made up of
several system calls, is not told: from inside the library the kernel
answers at once and as a whole.
-/

namespace Strongbox.Random

/-- **An endless sequence of answers**, taken one by one. The two parts
are kept together so that a feed can be handed on as one thing. -/
structure Feed (α : Type) where
  /-- All the answers, in order. -/
  reading : Nat → α
  /-- How many have been taken. -/
  taken : Nat

namespace Feed

variable {α : Type}

/-- The answers of a list, the last of which repeats for ever; without
any, the default. A feed that is known is given in this way. -/
def ofList (answers : List α) (default : α) : Feed α where
  reading i := answers.getD (min i (answers.length - 1)) default
  taken := 0

/-- The next answer. The answers themselves are not changed by taking
one. -/
def next (f : Feed α) : α × Feed α :=
  (f.reading f.taken, { f with taken := f.taken + 1 })

end Feed

/-- **A reading of the clock**, as it stands: the nanoseconds need not
be below a second, and neither number need be positive. Reducing it to
one number is a matter of `sample`. -/
structure ClockReading where
  /-- Seconds. -/
  seconds : Int
  /-- Nanoseconds. -/
  nanoseconds : Int
  deriving DecidableEq, Repr

/-- **The sample of a reading**: the nanoseconds in all, modulo 2⁶⁴. The
remainder is never below zero, whatever the signs are. -/
def ClockReading.sample (r : ClockReading) : Nat :=
  ((r.seconds * 1000000000 + r.nanoseconds) % 0x10000000000000000).toNat

/-- **What the kernel answers to a read.** The pattern stands for bytes
of any length: a request repeats it as often as it needs to. -/
inductive KernelAnswer where
  /-- A pattern, repeated over the whole request. -/
  | bytes (pattern : Bytes)
  /-- An error number. -/
  | failure (number : Nat)
  deriving DecidableEq, Repr

/-- **What there is outside.** The two are asked independently of each
other. -/
structure Host where
  /-- The monotonic clock. -/
  clock : Feed ClockReading
  /-- The kernel's source of random bytes. -/
  kernel : Feed KernelAnswer

namespace Host

/-- Reads the clock. One reading is taken for every sample. -/
def sampleClock (h : Host) : Nat × Host :=
  let (reading, clock) := h.clock.next
  (reading.sample, { h with clock })

/-- **Reads a number of bytes from the kernel.** Nothing is read for no
bytes, and a failed read delivers none. The number of an error is handed
on as the cause. -/
def readKernel (h : Host) (length : Nat) : Except EntropyError Bytes × Host :=
  if length = 0 then (.ok [], h)
  else
    match h.kernel.next with
    | (.bytes pattern, kernel) =>
      (.ok (Bytes.repeated pattern length), { h with kernel })
    | (.failure number, kernel) =>
      (.error (.kernel (.os number)), { h with kernel })

end Host

end Strongbox.Random
