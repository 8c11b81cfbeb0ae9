import Strongbox.Proofs.Buffer
import Strongbox.Random.Succession

/-!
# The one generator is a succession of generators

A `SharedRng` keeps its generator in a place that remembers how it came
to be there, behind a lock that a failing client leaves with a warning,
and makes it on demand at every entry of its own. A `Succession` has
none of this. The main statement, `run_eq_succession`, says that whoever
asks cannot tell the two apart: every call of every history is answered
alike, the generator is the same after it, with the calls of its sources
counted, and so much of the clock and of the kernel has been read.

What a `SharedRng` shows is its `succession`, a function of it. Each
entry is one equation between what it does to the process and what the
succession does, and `step_eq` puts them together.

## What is compared

There are three things in which the two could differ: an answer, the
generator that is there afterwards, and what has been asked of the
outside. All three are in the equations of this module, since the second
part of each is a whole `Succession`, with its generator and its host.
The generator has its sources in it, and they count their calls.

Two things of a `SharedRng` are not seen by anyone and are not compared:
whether the lock warns, and which cascade is kept for its counts.

## Where the work is

All requests come down to `demand`, which finds the generator or makes
it. `demand_eq` says that this is what the succession answers with, and
`succession_demand` that nothing else is left behind by it. The requests
that do not go through a call – a word, a fill, a key – are brought into
the form of one by `put_demand_eq`.
-/

namespace Strongbox.Random

/-- What is put in the place is the generator, whoever made the one
before it. -/
@[simp] theorem Slot.rng?_replace (slot : Slot) (rng : Rng) :
    (slot.replace rng).rng? = some rng := by
  cases slot <;> rfl

namespace SharedRng

/-- **What the one generator of a process is to those who ask it.** The
lock and the kept cascade are left out. -/
def succession (s : SharedRng) : Succession := ⟨s.slot.rng?, s.host⟩

/-- Taking the lock changes nothing that can be asked for. -/
@[simp] theorem succession_acquire (s : SharedRng) :
    s.acquire.succession = s.succession := by
  rw [succession, slot_acquire, host_acquire]
  rfl

/-! ## Requests -/

/-- **The generator is made on demand**, over the sources of the
machine, and only if there is none. The place is looked at once, and the
two cases are those of the succession. -/
theorem demand_eq (s : SharedRng) :
    (s.demand.1, s.demand.2.host) = s.succession.current := by
  unfold demand Succession.current succession
  cases s.slot.rng? <;> rfl

/-- The generator that a request finds is the one that answers in the
succession. -/
theorem demand_fst (s : SharedRng) : s.demand.1 = s.succession.current.1 :=
  congrArg Prod.fst s.demand_eq

/-- The host is asked for the two draws of a new generator, or for
nothing. -/
theorem host_demand (s : SharedRng) :
    s.demand.2.host = s.succession.current.2 :=
  congrArg Prod.snd s.demand_eq

/-- A generator put over the one that was demanded is the generator. How
the generator came to be in its place does not show. -/
theorem succession_put (s : SharedRng) (rng : Rng) (host : Host) :
    succession { s with slot := s.slot.replace rng, host }
      = ⟨some rng, host⟩ := by
  unfold succession
  rw [Slot.rng?_replace]

/-- **A demand leaves nothing but the generator**, made or found. The
place is vacant before, or it is not; afterwards it is not. -/
theorem succession_demand (s : SharedRng) :
    s.demand.2.succession
      = ⟨some s.succession.current.1, s.succession.current.2⟩ := by
  unfold demand Succession.current succession
  cases h : s.slot.rng? with
  | some rng => exact congrArg (Succession.mk · s.host) h
  | none => rfl

/-- **A request is answered as in the succession**: the generator is
demanded, answers, and is put back. -/
theorem ask_eq (s : SharedRng) (call : Rng.Call) :
    ((s.ask call).1, (s.ask call).2.succession) = s.succession.ask call := by
  unfold ask Succession.ask
  dsimp only
  rw [succession_put, demand_fst, host_demand]

/-- A request that leaves the host alone is a call to the generator.
Only a new draw asks the host, and these requests make none. -/
theorem put_demand_eq (s : SharedRng) (rng : Rng) :
    succession { s.demand.2 with slot := s.demand.2.slot.replace rng }
      = ⟨some rng, s.succession.current.2⟩ := by
  rw [← host_demand]
  exact succession_put s.demand.2 rng s.demand.2.host

/-- A word is a call for one. Wrapping the word in an answer and taking
it out again leaves no trace. -/
theorem word_eq (s : SharedRng) :
    (Rng.Reply.generator (.word s.word.1), s.word.2.succession)
      = s.succession.ask .word := by
  unfold word
  dsimp only
  rw [put_demand_eq, demand_fst, succession_acquire]
  rfl

/-- Bytes that are asked for one way are those of a call for them, if
there are any to ask for. -/
theorem fill_eq (s : SharedRng) {n : Nat} (hn : n ≠ 0) :
    (Rng.Reply.generator (.bytes (s.fill n).1), (s.fill n).2.succession)
      = s.succession.ask (.generator (.fill n)) := by
  unfold fill
  rw [if_neg hn]
  dsimp only
  rw [put_demand_eq, demand_fst, succession_acquire]
  rfl

/-- **A key is the bytes of a request for so many**, written into a row
that was made for them. A refusal comes after the generator was made.
The row has as many slots as bytes, so that they replace what was in it. -/
theorem key_eq (s : SharedRng) (n : Nat) :
    ((s.key n).1, (s.key n).2.succession) = s.succession.key n := by
  unfold key Succession.key
  dsimp only
  rw [demand_fst, succession_acquire]
  unfold Rng.bytes
  by_cases hn : n = 0
  · rw [if_pos hn]
    dsimp only
    rw [succession_demand, succession_acquire]
  · rw [if_neg hn]
    dsimp only
    have hbuffer := Buffer.withElements_resize_withCapacity
      (s.succession.current.1.drbg.fill n).1
    rw [Drbg.length_fill] at hbuffer
    rw [put_demand_eq, succession_acquire, hbuffer]

/-! ## Guards -/

/-- Under a guard a call is answered as without one. The lock is held
already, and is not taken again. -/
theorem guardStep_eq (s : SharedRng) (call : GuardCall) :
    ((s.guardStep call).1, (s.guardStep call).2.succession)
      = s.succession.guardStep call := by
  cases call with
  | ask call => exact s.ask_eq call
  | describe => rfl

/-- **The calls under a guard** are answered one after another, and
nothing that others ask for comes in between. -/
theorem guardRun_eq (s : SharedRng) (calls : List GuardCall) :
    ((s.guardRun calls).1, (s.guardRun calls).2.succession)
      = s.succession.guardRun calls := by
  induction calls generalizing s with
  | nil => rfl
  | cons call calls ih =>
    simp only [guardRun, Succession.guardRun, ← guardStep_eq, ← ih]

/-! ## Histories -/

/-- **Every call is answered alike**, and leaves the same behind. Each
entry is one of the equations above, with the lock taken before it. -/
theorem step_eq (s : SharedRng) (call : Call) :
    ((s.step call).1, (s.step call).2.succession) = s.succession.step call := by
  cases call with
  | configure cascade => rfl
  | shutdown =>
    show (Reply.done, (⟨none, s.acquire.host⟩ : Succession)) = _
    rw [host_acquire]
    rfl
  | isInitialized =>
    show (Reply.initialized s.isInitialized, s.acquire.succession) = _
    rw [succession_acquire]
    rfl
  | ask call =>
    simp only [step, Succession.step, ← succession_acquire s, ← ask_eq]
  | fill n =>
    cases n with
    | zero => rfl
    | succ n => simp only [step, Succession.step, ← s.fill_eq n.succ_ne_zero]
  | key n => simp only [step, Succession.step, ← key_eq]
  | guarded calls =>
    simp only [step, Succession.step, ← succession_acquire s, ← guardRun_eq]
  | abandoned calls =>
    simp only [step, Succession.step, ← succession_acquire s, ← guardRun_eq]
    rfl

/-- A generator that has been shut down cannot be shut down again. There
is no generator, and the cascade that is kept is kept again. -/
theorem shutdown_shutdown (s : SharedRng) :
    s.shutdown.shutdown = s.shutdown := by
  unfold shutdown
  rw [acquire_eq, acquire_eq]
  rfl

/-- **Every history is answered alike**, from any state of a process,
also from one that has never been asked for anything. -/
theorem run_eq (s : SharedRng) (calls : List Call) :
    ((s.run calls).1, (s.run calls).2.succession) = s.succession.run calls := by
  induction calls generalizing s with
  | nil => rfl
  | cons call calls ih => simp only [run, Succession.run, ← step_eq, ← ih]

/-- **The one generator of a process is a succession of generators**,
each of which stands alone. From the start of a process, and after every
history of calls – guards and failing clients among them –, all answers
are those of the succession, the generator is the same with the calls of
its sources counted, and the clock and the kernel have been read as
often. To shut down twice is to shut down. -/
theorem run_eq_succession (host : Host) (calls : List Call) :
    ((start host).run calls).1 = ((Succession.start host).run calls).1
      ∧ ((start host).run calls).2.slot.rng?
        = ((Succession.start host).run calls).2.current?
      ∧ ((start host).run calls).2.host
        = ((Succession.start host).run calls).2.host
      ∧ ((start host).run calls).2.shutdown.shutdown
        = ((start host).run calls).2.shutdown := by
  have h := run_eq (start host) calls
  exact ⟨congrArg Prod.fst h, congrArg (·.2.current?) h, congrArg (·.2.host) h,
    shutdown_shutdown _⟩

/-- A key of no bytes is refused by a generator that was made for it. No
generator is made for an empty fill, nor for a client that fails. -/
example (host : Host) :
    ((start host).step (.key 0)).2.slot.rng? = some (Rng.ofSystem host).1
      ∧ ((start host).run [.fill 0, .abandoned [.describe]]).2.slot.rng?
        = none :=
  ⟨rfl, rfl⟩

end SharedRng

end Strongbox.Random
