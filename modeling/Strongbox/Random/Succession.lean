import Strongbox.Random.SharedRng

/-!
# A succession of generators

What the one generator of a process is to those who ask it, said without
place, lock and guard: there is no generator, or there is one `Rng`,
which stands alone. To configure is to make one over a cascade, whatever
there was; to shut down is to have none. A request is answered by the
generator there is, and if there is none, by one that is made over the
sources of the machine first. Nothing else makes a generator, and
nothing else changes one.

## What is left out

The one generator of a process is guarded by a lock, stands in a place
that remembers how it came to be there, and keeps the cascade of a
generator that has gone. None of this is here. A client that fails while
it holds the lock is answered like any other, since its failure leaves
nothing behind that could be asked for; several calls under one guard
are those calls one after another.

The calls and the answers are those of the one generator, so that two
histories can be compared answer by answer. What is compared besides is
the generator with its sources, whose calls are counted, and the host,
of which the clock and the kernel have been asked so often: a succession
that made its generator too early, or once too often, would be found out
by them.

## Requests without a generator

Two entries do not make a generator: the question whether there is one,
and a request for no bytes through `fill`. Every other request does, and
does so also when it is refused afterwards – a key of no bytes, say. The
reference says so case by case, in `step`.
-/

namespace Strongbox.Random

/-- **At most one generator, standing alone**, and what there is
outside. That there is at most one is the type of the field. -/
structure Succession where
  /-- The generator, if there is one. -/
  current? : Option Rng
  /-- What there is outside. -/
  host : Host

namespace Succession

/-- Before the first generator. Nothing has been asked of the host. -/
def start (host : Host) : Succession := ⟨none, host⟩

/-- **The generator that answers**: the one there is, or a new one over
the sources of the machine. If one is made, it has asked the host for
its two draws. -/
def current (s : Succession) : Rng × Host :=
  match s.current? with
  | some rng => (rng, s.host)
  | none => Rng.ofSystem s.host

/-- **A generator over a cascade**, whatever there was. The one that was
there is lost, with what it knew. -/
def configure (s : Succession) (cascade : Cascade) : Succession :=
  let (rng, host) := Rng.ofCascade cascade s.host
  ⟨some rng, host⟩

/-- **No generator.** The host stays as it is, and the next request
begins anew. -/
def shutdown (s : Succession) : Succession := ⟨none, s.host⟩

/-- **Has a call answered.** Afterwards there is a generator, whatever
the answer is. -/
def ask (s : Succession) (call : Rng.Call) : Rng.Reply × Succession :=
  let (rng, host) := s.current
  let (reply, rng, host) := rng.step host call
  (reply, ⟨some rng, host⟩)

/-- **A random key**: the bytes of a request for so many, in a buffer of
just that size. A refusal makes no buffer, and leaves the generator that
was asked. -/
def key (s : Succession) (n : Nat) :
    Except RequestError (Buffer UInt8) × Succession :=
  let (rng, host) := s.current
  match rng.bytes n with
  | .ok (value, rng) => (.ok (Buffer.ofList value), ⟨some rng, host⟩)
  | .error e => (.error e, ⟨some rng, host⟩)

/-- Answers one call under a guard. The description tells whether there
is a generator, and makes none. -/
def guardStep (s : Succession) : SharedRng.GuardCall → Rng.Reply × Succession
  | .ask call => s.ask call
  | .describe =>
    (.generator (.text (SharedRng.guardDescription s.current?.isSome)), s)

/-- Answers the calls under one guard. They are asked one after another,
like calls without a guard. -/
def guardRun (s : Succession) :
    List SharedRng.GuardCall → List Rng.Reply × Succession
  | [] => ([], s)
  | call :: calls =>
    let (reply, s) := s.guardStep call
    let (replies, s) := guardRun s calls
    (reply :: replies, s)

/-- **Answers one call**, as the one generator of a process does. A
guard whose client fails is a guard like any other. -/
def step (s : Succession) : SharedRng.Call → SharedRng.Reply × Succession
  | .configure cascade => (.done, s.configure cascade)
  | .shutdown => (.done, s.shutdown)
  | .isInitialized => (.initialized s.current?.isSome, s)
  | .ask call =>
    let (reply, s) := s.ask call
    (.answer reply, s)
  | .fill 0 => (.answer (.generator (.bytes [])), s)
  | .fill n =>
    let (reply, s) := s.ask (.generator (.fill n))
    (.answer reply, s)
  | .key n =>
    let (outcome, s) := s.key n
    (.key outcome, s)
  | .guarded calls | .abandoned calls =>
    let (replies, s) := s.guardRun calls
    (.guarded replies, s)

/-- **Answers a history of calls**, and gives what there is after it. It
is what the answers of the one generator are compared with. -/
def run (s : Succession) :
    List SharedRng.Call → List SharedRng.Reply × Succession
  | [] => ([], s)
  | call :: calls =>
    let (reply, s) := s.step call
    let (replies, s) := run s calls
    (reply :: replies, s)

end Succession

end Strongbox.Random
