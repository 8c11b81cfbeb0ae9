import Strongbox.Random.Rng

/-!
# A generator fed by numbered draws

What an `Rng` does, said of a plain `Drbg` and of a sequence of draws.
The draws of a cascade are numbered from zero on, each made into a
destination of zeros by the sources as the draws before it left them.
Draw number zero is the seed of the plain generator, draw number one is
taken in after it under a label, and each call for a new draw takes in
the next one. What a caller asks for or brings is passed on, the
material of a seed under a label of its own, and what is refused is not
passed on.

A source keeps its word if it delivers only when it has written all of
the destination (`Source.FillsWhole`). Of sources that do, no draw
depends on what its destination held before.

## What the reference is made of

Everything that a draw is hashed with is written out here: the three
labels as texts, and the 64 bytes of a draw as a number. What is shared
with the generator under comparison is the plain `Drbg`, which is what
the draws go into, and the draw of one cascade into one destination. The
numbering, the order, and what is passed on of a history are said here a
second time, without a state that is carried from call to call.

## The destination of the second draw

The generator makes its second draw into the destination that still
holds the first, the reference into zeros. That there is no difference
is a property of sources which keep their word, and it is the reason why
`FillsWhole` is a hypothesis of the statement and not a remark.
-/

namespace Strongbox.Random

namespace Source

/-- **The source keeps its word**: whenever it delivers, it has written
all of the destination. A source that delivers less than it was asked
for would leave bytes in the destination that it has not drawn. -/
def FillsWhole (s : Source) : Prop :=
  ∀ call length h, (s.play call length h).1.outcome = .ok () →
    length ≤ (s.play call length h).1.write.length

/-- The source does not read the clock. The clock of a draw is then read
by the draw alone, once. -/
def SparesClock (s : Source) : Prop :=
  ∀ call length h, (s.play call length h).2.clock = h.clock

end Source

namespace Cascade

/-- All sources keep their word. This is what every source of the
library does. -/
def FillsWhole (c : Cascade) : Prop := ∀ s ∈ c.sources, s.FillsWhole

/-- No source reads the clock. So the clock tells how many draws there
have been. -/
def SparesClock (c : Cascade) : Prop := ∀ s ∈ c.sources, s.SparesClock

/-- **The sources and the host after a number of draws**, each of the
length of a seed and into a destination of zeros. The sources are those
that the draws before have left, with their calls counted. -/
def afterDraws (c : Cascade) (h : Host) : Nat → Cascade × Host
  | 0 => (c, h)
  | k + 1 =>
    let (sources, host) := afterDraws c h k
    let drawn := sources.draw (Bytes.zeros 64) host
    (drawn.sources, drawn.host)

/-- **The draw of a number**, counted from zero. It depends on the
number and on what there was at the beginning, and on nothing that has
been asked of the generator in between. -/
def numberedDraw (c : Cascade) (h : Host) (k : Nat) : Draw Cascade :=
  let (sources, host) := afterDraws c h k
  sources.draw (Bytes.zeros 64) host

end Cascade

namespace Rng

/-- **What a call passes on to the plain generator**, when the next draw
has these bytes. A request that is refused passes nothing on, and so
does one that only asks for a description. -/
def Call.plain? (drawn : Bytes) : Call → Option Drbg.Call
  | seed material =>
    if material.isEmpty then none
    else some (.reseed (Bytes.ascii "bastion-rand caller seed") material)
  | randomSeed =>
    some (.reseed (Bytes.ascii "bastion-rand chain seed") drawn)
  | bytes n => if n = 0 then none else some (.fill n)
  | generator call => some call
  | describe => none

/-- How many draws a call makes. Only a call for a new seed makes one. -/
def Call.draws (call : Call) : Nat := if call = randomSeed then 1 else 0

/-- **What a history passes on to the plain generator**, when the next
draw is the one of number `k`. The number of the next draw goes up by
what each call draws. -/
def plainHistory (draw : Nat → Bytes) : (k : Nat) → List Call → List Drbg.Call
  | _, [] => []
  | k, call :: calls =>
    (call.plain? (draw k)).toList ++ plainHistory draw (k + call.draws) calls

/-- **The answer to a call**, from the plain generator, the origin of
the next draw, and the sources for their names. The plain generator is
the one the call finds. -/
def Call.answer (cascade : Cascade) (drbg : Drbg) (origin : Origin) :
    Call → Reply
  | seed material =>
    if material.isEmpty then .refused .emptySeed else .generator .done
  | randomSeed => .origin origin
  | bytes n =>
    if n = 0 then .refused .emptyRequest
    else .generator (.bytes (drbg.fill n).1)
  | generator call => .generator (drbg.step call).1
  | describe => .generator (.text (Rng.describe ⟨drbg, cascade⟩))

/-- **The plain generator after a history**: seeded with draw zero,
given draw one, and from there on what the history passes on. Its
answers are those to the calls that are passed on, and the generator is
what there is to compare. -/
def plainRun (cascade : Cascade) (h : Host) (calls : List Call) :
    List Drbg.Reply × Drbg :=
  let draw k := (cascade.numberedDraw h k).bytes
  (Drbg.ofSeed (draw 0)).run
    (.reseed (Bytes.ascii "bastion-rand augment") (draw 1)
      :: plainHistory draw 2 calls)

end Rng

end Strongbox.Random
