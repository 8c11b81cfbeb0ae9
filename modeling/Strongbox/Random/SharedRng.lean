import Strongbox.Buffer
import Strongbox.Random.NonceSequence
import Strongbox.Random.Rng

/-!
# One generator for everyone

A process has one generator that all its parts draw from. It can be
configured with a cascade, and shut down; whoever asks for random
numbers when there is none gets one over the sources of the machine,
made on demand. Asking is enough for that, even if the request is then
refused. Looking whether there is a generator is not, and neither is an
empty fill.

A lock lets one client at the generator at a time. Most requests take it
for themselves alone; a client that needs several answers in a row takes
a guard, under which nobody else is served. A client that fails while it
holds the guard leaves the generator as it is then, and a lock that says
so: whoever takes the lock next takes it all the same.

## What stays of a configured cascade

The calls of the cascade last configured stay countable after its
generator is gone. Therefore a `SharedRng` keeps that cascade as it was
when the generator went.

## Under the lock

`lock` and `acquire` are the taking of the lock as a client sees it: a
client that has failed leaves a warning, the next one takes note of it
and goes on with the generator as it is, and the one after that finds no
warning. Since every request takes the lock, what a history of calls
does is what it does one call after another, in the order in which the
lock was taken.
-/

namespace Strongbox.Random

/-- **The place of the one generator.** How the generator came to be
there is remembered, because only the cascade of a configured one stays
countable. -/
inductive Slot where
  /-- There is none. -/
  | vacant
  /-- One made on demand. -/
  | onDemand (rng : Rng)
  /-- One made over a configured cascade. -/
  | configured (rng : Rng)

/-- The generator in the place, if there is one. Who made it makes no
difference to a request. -/
def Slot.rng? : Slot → Option Rng
  | vacant => none
  | onDemand rng | configured rng => some rng

/-- The place with a generator put over the one that is there. A request
does not change how the generator came to be there. -/
def Slot.replace (slot : Slot) (rng : Rng) : Slot :=
  match slot with
  | vacant | onDemand _ => onDemand rng
  | configured _ => configured rng

/-- **The one generator of a process**, the lock before it, and what
there is outside. Everything that the clients of a process share is in
these four fields. -/
structure SharedRng where
  /-- The place of the generator. -/
  slot : Slot
  /-- Whether a client has failed under the lock and nobody has taken it
  since. -/
  poisoned : Bool
  /-- The cascade last configured, as it was when its generator went. -/
  retired : Cascade
  /-- What there is outside. -/
  host : Host

namespace SharedRng

/-- A process that has not asked for random numbers yet. No cascade has
been configured either, and the last one counts as empty. -/
def start (host : Host) : SharedRng := ⟨.vacant, false, ⟨[]⟩, host⟩

/-- Tries the lock. It warns of a client that has failed under it. The
state behind it is the same in both cases. -/
def lock (s : SharedRng) : Except SharedRng SharedRng :=
  if s.poisoned then .error s else .ok s

/-- **Takes the lock**, whether it warns or not; a warning is given
once. No client is turned away because another one has failed. -/
def acquire (s : SharedRng) : SharedRng :=
  match s.lock with
  | .ok s => s
  | .error s => { s with poisoned := false }

/-- Nothing but the warning is changed by taking the lock. -/
theorem acquire_eq (s : SharedRng) :
    s.acquire = { s with poisoned := false } := by
  obtain ⟨slot, poisoned, retired, host⟩ := s
  cases poisoned <;> rfl

@[simp] theorem slot_acquire (s : SharedRng) : s.acquire.slot = s.slot := by
  rw [acquire_eq]

@[simp] theorem host_acquire (s : SharedRng) : s.acquire.host = s.host := by
  rw [acquire_eq]

/-- Whether there is a generator. Looking for it makes none. -/
def isInitialized (s : SharedRng) : Bool := s.slot.rng?.isSome

/-- **The cascade last configured**, with its calls counted. If its
generator is still there, it is the one in the place; otherwise it is
the one that was kept. -/
def lastConfigured (s : SharedRng) : Cascade :=
  match s.slot with
  | .configured rng => rng.cascade
  | .vacant | .onDemand _ => s.retired

/-- **Shuts the generator down.** Without one, nothing happens. The
cascade of a configured generator is kept for its counts. -/
def shutdown (s : SharedRng) : SharedRng :=
  { s.acquire with slot := .vacant, retired := s.lastConfigured }

/-- **Puts a generator over a cascade** in the place of whatever is
there. The new generator makes its two draws at once. -/
def configure (s : SharedRng) (cascade : Cascade) : SharedRng :=
  let (rng, host) := Rng.ofCascade cascade s.host
  { s.acquire with slot := .configured rng, host }

/-- **The generator, made if there is none**, for whoever holds the
lock. A generator that is made here stays, also if the request is
refused afterwards. -/
def demand (s : SharedRng) : Rng × SharedRng :=
  match s.slot.rng? with
  | some rng => (rng, s)
  | none =>
    let (rng, host) := Rng.ofSystem s.host
    (rng, { s with slot := .onDemand rng, host })

/-- **Hands a call to the generator**, for whoever holds the lock. The
generator is put back where it was found. -/
def ask (s : SharedRng) (call : Rng.Call) : Rng.Reply × SharedRng :=
  let (rng, s) := s.demand
  let (reply, rng, host) := rng.step s.host call
  (reply, { s with slot := s.slot.replace rng, host })

/-- A random word. This and the bytes below are what the one generator
has to be for a session of nonces. -/
def word (s : SharedRng) : UInt32 × SharedRng :=
  let (rng, s) := s.acquire.demand
  (rng.drbg.word.1,
    { s with slot := s.slot.replace { rng with drbg := rng.drbg.word.2 } })

/-- **A number of random bytes for a client that may ask for none**;
then no generator is needed, and not even the lock is taken. It is the
one request that may pass without a generator. -/
def fill (s : SharedRng) (n : Nat) : Bytes × SharedRng :=
  if n = 0 then ([], s)
  else
    let (rng, s) := s.acquire.demand
    ((rng.drbg.fill n).1,
      { s with
        slot := s.slot.replace { rng with drbg := (rng.drbg.fill n).2 } })

/-- **The one generator is a source of words**, which is how sessions of
nonces draw from it. -/
instance : RandomSource SharedRng where
  word := word
  fill := fill

/-- **A random key** of a number of bytes, at least one, in a buffer
that wipes what it gives up. The buffer has its full length before the
generator is asked, and the bytes are put over its zeros. -/
def key (s : SharedRng) (n : Nat) :
    Except RequestError (Buffer UInt8) × SharedRng :=
  let blank : Buffer UInt8 := (Buffer.withCapacity n).resize n
  let (rng, s) := s.acquire.demand
  match rng.bytes n with
  | .ok (value, rng) =>
    (.ok (blank.withElements value), { s with slot := s.slot.replace rng })
  | .error e => (.error e, s)

/-- The range of the words that are handed out. A word may be any number
of 32 bits. -/
def minWord : Nat := 0

@[inherit_doc minWord]
def maxWord : Nat := 0xFFFFFFFF

/-- How a guard shows itself: whether there is a generator. The
generator itself is not shown. -/
def guardDescription (initialized : Bool) : String :=
  "EngineGuard \x7b initialized: " ++ toString initialized ++ " \x7d"

/-- How a guard shows itself now. The guard shows it without making one. -/
def describeGuard (s : SharedRng) : String := guardDescription s.isInitialized

/-! ## Histories -/

/-- **A call under a guard.** The description is the guard's own;
everything else goes to the generator. -/
inductive GuardCall where
  /-- A call to the generator. -/
  | ask (call : Rng.Call)
  /-- The guard's description. -/
  | describe
  deriving DecidableEq, Repr

/-- **A call to the one generator.** Those that a client can make, each
of them under the lock, but for an empty fill. -/
inductive Call where
  /-- Put a generator over a cascade. -/
  | configure (cascade : Cascade)
  /-- Shut the generator down. -/
  | shutdown
  /-- Look whether there is a generator. -/
  | isInitialized
  /-- A call to the generator. -/
  | ask (call : Rng.Call)
  /-- Bytes for a client that may ask for none. -/
  | fill (n : Nat)
  /-- A random key. -/
  | key (n : Nat)
  /-- A number of calls under one guard. -/
  | guarded (calls : List GuardCall)
  /-- A client that fails under its guard, after a number of calls. -/
  | abandoned (calls : List GuardCall := [])

/-- **What the one generator answers.** Each call has its kind of
answer. -/
inductive Reply where
  /-- What the generator answers. -/
  | answer (reply : Rng.Reply)
  /-- Whether there is a generator. -/
  | initialized (value : Bool)
  /-- A random key, or a refusal. -/
  | key (outcome : Except RequestError (Buffer UInt8))
  /-- Answers under a guard, in order. -/
  | guarded (replies : List Rng.Reply)
  /-- Nothing but that it is done. -/
  | done

/-- Answers one call under a guard. The lock is held already, and is not
taken again. -/
def guardStep (s : SharedRng) : GuardCall → Rng.Reply × SharedRng
  | .ask call => s.ask call
  | .describe => (.generator (.text s.describeGuard), s)

/-- Answers the calls under one guard. Nobody else is served between
them. -/
def guardRun (s : SharedRng) : List GuardCall → List Rng.Reply × SharedRng
  | [] => ([], s)
  | call :: calls =>
    let (reply, s) := s.guardStep call
    let (replies, s) := guardRun s calls
    (reply :: replies, s)

/-- **Answers one call.** All but the empty fill take the lock, and a
failing client marks it. -/
def step (s : SharedRng) : Call → Reply × SharedRng
  | .configure cascade => (.done, s.configure cascade)
  | .shutdown => (.done, s.shutdown)
  | .isInitialized => (.initialized s.isInitialized, s.acquire)
  | .ask call =>
    let (reply, s) := s.acquire.ask call
    (.answer reply, s)
  | .fill n =>
    let (value, s) := s.fill n
    (.answer (.generator (.bytes value)), s)
  | .key n =>
    let (outcome, s) := s.key n
    (.key outcome, s)
  | .guarded calls =>
    let (replies, s) := s.acquire.guardRun calls
    (.guarded replies, s)
  | .abandoned calls =>
    let (replies, s) := s.acquire.guardRun calls
    (.guarded replies, { s with poisoned := true })

/-- **Answers a history of calls**, and gives the process after it. The
history is that of the process: calls of all its clients, in the order
of the lock. -/
def run (s : SharedRng) : List Call → List Reply × SharedRng
  | [] => ([], s)
  | call :: calls =>
    let (reply, s) := s.step call
    let (replies, s) := run s calls
    (reply :: replies, s)

end SharedRng

end Strongbox.Random
