import Mathlib.Data.List.Forall2
import Strongbox.Proofs.Bytes
import Strongbox.Proofs.Random.Draws

/-!
# A draw is its first source and the clock

A cascade asks its sources in order. `Cascade.FirstDelivery` says,
without the loop that asks them, what has come of that in the end: some
sources that have all failed, each on the host as the one before left
it, then one that delivers, and others that have not been asked; or else
no source that delivers, and the constant seed. The sources that have
been asked are those with one more call counted.
`Cascade.MixedWithClock` is what a draw makes of it, with one reading of
the clock.

`draw_is_first_delivery` puts the two together, for sources that keep
their word. It also says what a draw does not depend on: what its
destination held before is written over, and what a source has written
and then failed is wiped, so that sources that differ in nothing else
(`Source.AgreeWhereDelivered`) give the same draws. And it says what
comes of a machine without the two instructions, where only the kernel
is left.

## The order of things

A draw does four things: it asks sources until one delivers, it wipes
what the failing ones have written, it puts the constant seed in place
of a delivery that does not come, and it mixes in the clock. The
statement keeps them apart. `Source.AllFail` is the row of failures,
each on the host as the one before it has left it; `FirstDelivery` is
how the row ends; `MixedWithClock` is the rest.

The constant seed is repeated over the destination by the code and is
read cyclically here, byte `i` being byte `i % 64` of it; and the sample
of the clock is written as eight bytes by the code and read here byte by
byte, as a number divided by powers of 256. So neither of them is taken
over from what is described.
-/

namespace Strongbox.Random

namespace Source

/-- **All of some sources fail**, asked in order for so many bytes, and
lead from one host to another. The hosts are part of it, because a
source that fails may have asked the kernel. -/
inductive AllFail (length : Nat) : List Source → Host → Host → Prop
  /-- No source. -/
  | nil (h : Host) : AllFail length [] h h
  /-- One source and those after it. -/
  | cons {s : Source} {later : List Source} {h h' : Host} {e : EntropyError}
    (hfailed : (s.play s.calls length h).1.outcome = .error e)
    (hlater : AllFail length later (s.play s.calls length h).2 h') :
    AllFail length (s :: later) h h'

/-- **A source that differs from another at most in what it writes and
then fails.** What such a source has written is wiped, and so they
should be the same to a cascade. -/
structure AgreeWhereDelivered (s s' : Source) : Prop where
  /-- They have the same name. -/
  name_eq : s'.name = s.name
  /-- They have been called as often. -/
  calls_eq : s'.calls = s.calls
  /-- They deliver and fail alike. -/
  outcome_eq (call length : Nat) (h : Host) :
    (s'.play call length h).1.outcome = (s.play call length h).1.outcome
  /-- They do the same to the host. -/
  host_eq (call length : Nat) (h : Host) : (s'.play call length h).2
    = (s.play call length h).2
  /-- What they deliver is the same. -/
  write_eq {call length : Nat} {h : Host}
    (hdelivered : (s.play call length h).1.outcome = .ok ()) :
    (s'.play call length h).1.write = (s.play call length h).1.write

end Source

namespace Cascade

/-- **The constant seed taken cyclically**, up to a length. It is the
constant seed of a destination of any length. -/
def cyclicSeed (length : Nat) : Bytes :=
  (List.range length).map fun i => fallbackSeed.getD (i % 64) 0

/-- **What comes of asking sources** for so many bytes until one
delivers. The two ways it may end are its constructors, and the
hypotheses of each say when it does. -/
inductive FirstDelivery (length : Nat) (sources : List Source) (h : Host) :
    Draw (List Source) → Prop
  /-- A source delivers, after some that fail. -/
  | delivered {failed later : List Source} {s : Source} {h' : Host}
    (hsources : sources = failed ++ s :: later)
    (hfailed : Source.AllFail length failed h h')
    (hdelivered : (s.play s.calls length h').1.outcome = .ok ()) :
    FirstDelivery length sources h
      { origin := .source s.name
        bytes := (s.play s.calls length h').1.write.take length
        sources := failed.map Source.called ++ s.called :: later
        host := (s.play s.calls length h').2 }
  /-- All of them fail. -/
  | fallback {h' : Host} (hfailed : Source.AllFail length sources h h') :
    FirstDelivery length sources h
      { origin := .fallback
        bytes := cyclicSeed length
        sources := sources.map Source.called
        host := h' }

/-- **A draw with the clock mixed in**: one sample, over the first eight
bytes. The bytes are told one by one, so that nothing is hidden in how
they are mixed. -/
structure MixedWithClock (raw : Draw (List Source)) (drawn : Draw Cascade) :
    Prop where
  /-- It comes from where the bytes come from. -/
  origin_eq : drawn.origin = raw.origin
  /-- No more calls are counted. -/
  sources_eq : drawn.sources = ⟨raw.sources⟩
  /-- The clock has been read once more. -/
  host_eq : drawn.host = raw.host.sampleClock.2
  /-- The first eight bytes are under the sample, and the others stay. -/
  bytes_eq (i : Nat) : drawn.bytes[i]? = raw.bytes[i]?.map fun byte =>
    if i < 8 then byte ^^^ UInt8.ofNat (raw.host.sampleClock.1 / 256 ^ i)
    else byte

variable {c : Cascade} {sources sources' later : List Source} {s : Source}
  {dest dest' : Bytes}
  {h : Host}

/-! ## What is drawn -/

/-- The constant seed repeated is the constant seed taken cyclically.
The two are compared byte by byte. -/
theorem repeated_fallbackSeed (length : Nat) :
    Bytes.repeated fallbackSeed length = cyclicSeed length := by
  have hseed : fallbackSeed.length = 64 := by decide
  refine List.ext_getElem? fun i => ?_
  obtain hi | hi := Nat.lt_or_ge i length
  · have hmod : i % 64 < fallbackSeed.length := hseed ▸ Nat.mod_lt i (by decide)
    rw [Bytes.getElem?_repeated (by decide) hi, hseed, cyclicSeed,
      List.getElem?_map,
      List.getElem?_range hi, Option.map_some, List.getD_eq_getElem?_getD,
      List.getElem?_eq_getElem hmod]
    rfl
  · rw [List.getElem?_eq_none (by rwa [Bytes.length_repeated (by decide)]),
      List.getElem?_eq_none
        (by rwa [cyclicSeed, List.length_map, List.length_range])]

/-- A source that fails is one more of those in front. The host of the
others is the one it leaves. -/
theorem FirstDelivery.cons {length : Nat} {e : EntropyError}
    {raw : Draw (List Source)}
    (hfailed : (s.play s.calls length h).1.outcome = .error e)
    (hlater : FirstDelivery length later (s.play s.calls length h).2 raw) :
    FirstDelivery length (s :: later) h
      { raw with sources := s.called :: raw.sources } := by
  cases hlater with
  | delivered hsources hall hdelivered =>
    exact .delivered (congrArg (s :: ·) hsources) (.cons hfailed hall)
      hdelivered
  | fallback hall => exact .fallback (.cons hfailed hall)

/-- **Asking finds the first source that delivers.** By induction over
the sources: the first one delivers, or it fails and the others are
asked. -/
theorem firstDelivery_drawFrom (hs : ∀ s ∈ sources, s.FillsWhole) :
    FirstDelivery dest.length sources h (drawFrom sources dest h) := by
  induction sources generalizing dest h with
  | nil =>
    unfold drawFrom
    rw [repeated_fallbackSeed]
    exact .fallback (.nil h)
  | cons s later ih =>
    obtain ⟨hwhole, hwholes⟩ := List.forall_mem_cons.mp hs
    cases ho : (s.play s.calls dest.length h).1.outcome with
    | ok _ =>
      rw [drawFrom_delivered ho, Bytes.overwrite_of_length_le (hwhole _ _ _ ho)]
      exact @FirstDelivery.delivered _ _ h [] later s h rfl (.nil h) ho
    | error e =>
      have hlater : FirstDelivery (Bytes.zeros dest.length).length later _
          (drawFrom later (Bytes.zeros dest.length)
              (s.play s.calls dest.length h).2) := ih hwholes
      rw [Bytes.length_zeros] at hlater
      rw [drawFrom_failed ho]
      exact hlater.cons ho

/-- **A draw mixes the clock in** and does nothing else. A byte past the
eighth has no byte of the sample over it. -/
theorem mixedWithClock_draw (c : Cascade) (dest : Bytes) (h : Host) :
    MixedWithClock (drawFrom c.sources dest h) (c.draw dest h) where
  origin_eq := rfl
  sources_eq := rfl
  host_eq := rfl
  bytes_eq i := by
    show (Bytes.mixInto
        (clockMask (drawFrom c.sources dest h).host.sampleClock.1)
      (drawFrom c.sources dest h).bytes)[i]? = _
    rw [Bytes.getElem?_mixInto]
    obtain hi | hi := Nat.lt_or_ge i 8
    · rw [clockMask, Bytes.getElem?_littleEndian hi]
      simp only [if_pos hi, Option.map_some, Option.getD_some]
    · rw [List.getElem?_eq_none (by rwa [clockMask, Bytes.length_littleEndian])]
      simp only [if_neg (Nat.not_lt.mpr hi), Option.map_none, Option.getD_none]

/-! ## What a draw does not depend on -/

/-- Sources that agree have been called as often. It is the field of
each pair, listed. -/
theorem map_calls_of_agree
    (hagree : List.Forall₂ Source.AgreeWhereDelivered sources sources') :
    sources'.map Source.calls = sources.map Source.calls := by
  induction hagree with
  | nil => rfl
  | cons hfirst _ ih => rw [List.map_cons, List.map_cons, hfirst.calls_eq, ih]

/-- **Two draws that are the same**, but for what their sources would
write. The sources themselves may differ in what they write and then
fail. -/
structure SameDraw {σ : Type} (calls : σ → List Nat) (drawn drawn' : Draw σ) :
    Prop where
  /-- They come from the same source. -/
  origin_eq : drawn'.origin = drawn.origin
  /-- They are of the same bytes. -/
  bytes_eq : drawn'.bytes = drawn.bytes
  /-- They leave the same host. -/
  host_eq : drawn'.host = drawn.host
  /-- They have asked the same sources. -/
  calls_eq : calls drawn'.sources = calls drawn.sources

/-- **Asking sources that agree where they deliver** comes to the same,
whatever the destinations hold. By induction over the pairs, with one
case for a delivery and one for a failure. -/
theorem sameDraw_drawFrom
    (hagree : List.Forall₂ Source.AgreeWhereDelivered sources sources')
    (hs : ∀ s ∈ sources, s.FillsWhole) (hdest : dest'.length = dest.length) :
    SameDraw (List.map Source.calls) (drawFrom sources dest h)
      (drawFrom sources' dest' h) := by
  induction hagree generalizing dest dest' h with
  | nil =>
    unfold drawFrom
    rw [hdest]
    exact ⟨rfl, rfl, rfl, rfl⟩
  | @cons s s' later later' hfirst hlater ih =>
    obtain ⟨hwhole, hwholes⟩ := List.forall_mem_cons.mp hs
    -- Both are asked for as many bytes, at the call of the same number.
    have houtcome : (s'.play s'.calls dest'.length h).1.outcome
        = (s.play s.calls dest.length h).1.outcome := by
      rw [hfirst.calls_eq, hdest, hfirst.outcome_eq]
    have hhost : (s'.play s'.calls dest'.length h).2
      = (s.play s.calls dest.length h).2 := by
      rw [hfirst.calls_eq, hdest, hfirst.host_eq]
    have hcalled : s'.called.calls = s.called.calls :=
      congrArg (· + 1) hfirst.calls_eq
    cases ho : (s.play s.calls dest.length h).1.outcome with
    | ok _ =>
      have hwrite : (s'.play s'.calls dest'.length h).1.write
          = (s.play s.calls dest.length h).1.write := by
        rw [hfirst.calls_eq, hdest, hfirst.write_eq ho]
      have hroom : dest.length
        ≤ (s.play s.calls dest.length h).1.write.length :=
        hwhole _ _ _ ho
      rw [drawFrom_delivered ho, drawFrom_delivered (houtcome.trans ho)]
      refine ⟨congrArg Origin.source hfirst.name_eq, ?_, hhost, ?_⟩
      · show Bytes.overwrite _ dest' = Bytes.overwrite _ dest
        rw [hwrite, Bytes.overwrite_of_length_le hroom,
          Bytes.overwrite_of_length_le (hdest ▸ hroom), hdest]
      · exact List.cons_eq_cons.mpr ⟨hcalled, map_calls_of_agree hlater⟩
    | error e =>
      rw [drawFrom_failed ho, drawFrom_failed (houtcome.trans ho), hhost, hdest]
      have hrest : SameDraw (List.map Source.calls)
          (drawFrom later (Bytes.zeros dest.length)
              (s.play s.calls dest.length h).2)
          (drawFrom later' (Bytes.zeros dest.length)
              (s.play s.calls dest.length h).2) :=
        ih hwholes rfl
      obtain ⟨horigin, hbytes, hlast, hcalls⟩ := hrest
      exact ⟨horigin, hbytes, hlast, List.cons_eq_cons.mpr ⟨hcalled, hcalls⟩⟩

/-- **Draws from sources that agree where they deliver** are the same,
with the clock mixed in. -/
theorem sameDraw_draw {c' : Cascade}
    (hagree : List.Forall₂ Source.AgreeWhereDelivered c.sources c'.sources)
    (hc : c.FillsWhole) (hdest : dest'.length = dest.length) :
    SameDraw calls (c.draw dest h) (c'.draw dest' h) := by
  obtain ⟨horigin, hbytes, hhost, hcalls⟩ :=
    sameDraw_drawFrom (h := h) hagree hc hdest
  refine ⟨horigin, ?_, congrArg (·.sampleClock.2) hhost, hcalls⟩
  show Bytes.mixInto
    (clockMask (drawFrom c'.sources dest' h).host.sampleClock.1) _ = _
  rw [hhost, hbytes]
  rfl

/-! ## The machine without the two instructions -/

/-- Both instructions fail, and the kernel is asked. They leave the host
alone and nothing in the destination. -/
theorem drawFrom_system (dest : Bytes) (h : Host) :
    drawFrom system.sources dest h
      = { drawFrom [Source.kernel] (Bytes.zeros dest.length) h with
          sources := Source.rdseed.called :: Source.rdrand.called
            :: (drawFrom [Source.kernel]
              (Bytes.zeros dest.length) h).sources } := by
  show drawFrom [Source.rdseed, Source.rdrand, Source.kernel] dest h = _
  rw [drawFrom_failed rfl, drawFrom_failed rfl, Bytes.length_zeros]
  rfl

/-- **The kernel's bytes**, when it has filled the destination. The
origin is the kernel, and all three sources have been called once. -/
theorem drawFrom_system_of_ok {bytes : Bytes} {h' : Host}
    (hkernel : h.readKernel dest.length = (.ok bytes, h'))
    (hlength : bytes.length = dest.length) :
    drawFrom system.sources dest h
      = ⟨.source "kernel", bytes, system.sources.map Source.called, h'⟩ := by
  have hplay :
    Source.kernel.play Source.kernel.calls (Bytes.zeros dest.length).length h
      = (⟨bytes, .ok ()⟩, h') := by
    show Source.kernelPlay (Bytes.zeros dest.length).length h = _
    rw [Bytes.length_zeros, Source.kernelPlay, hkernel]
  have hwhole : (Bytes.zeros dest.length).length ≤ bytes.length :=
    Nat.le_of_eq ((Bytes.length_zeros _).trans hlength.symm)
  rw [drawFrom_system, drawFrom_delivered (by rw [hplay]), hplay,
    Bytes.overwrite_of_length_le hwhole, Bytes.length_zeros, ← hlength,
    List.take_length]
  rfl

/-- **The constant seed**, when the kernel cannot be read. All three
sources have been called, and none of them has delivered. -/
theorem drawFrom_system_of_error {e : EntropyError} {h' : Host}
    (hkernel : h.readKernel dest.length = (.error e, h')) :
    drawFrom system.sources dest h
      = ⟨.fallback, cyclicSeed dest.length, system.sources.map Source.called,
        h'⟩ := by
  have hplay :
    Source.kernel.play Source.kernel.calls (Bytes.zeros dest.length).length h
      = (Play.failure e, h') := by
    show Source.kernelPlay (Bytes.zeros dest.length).length h = _
    rw [Bytes.length_zeros, Source.kernelPlay, hkernel]
  rw [drawFrom_system, drawFrom_failed (e := e) (by rw [hplay]; rfl), hplay]
  show Draw.mk Origin.fallback
    (Bytes.repeated fallbackSeed (Bytes.zeros (Bytes.zeros _).length).length)
    _ _ = _
  rw [Bytes.length_zeros, Bytes.length_zeros, repeated_fallbackSeed]
  rfl

/-- **A draw is exactly its first source that delivers, and the clock**,
whatever the sources do, as long as they keep their word. Sources that
agree with them where they deliver give the same draw into any
destination of that length. On a machine without the two instructions it
is the kernel's bytes, when the kernel fills the destination, and the
constant seed when it cannot be read. -/
theorem draw_is_first_delivery :
    (∀ c : Cascade, c.FillsWhole → ∀ (dest : Bytes) (h : Host),
      (∃ raw, FirstDelivery dest.length c.sources h raw
          ∧ MixedWithClock raw (c.draw dest h))
      ∧ ∀ (c' : Cascade) (dest' : Bytes),
        List.Forall₂ Source.AgreeWhereDelivered c.sources c'.sources →
        dest'.length = dest.length
          → SameDraw calls (c.draw dest h) (c'.draw dest' h))
    ∧ ∀ (dest : Bytes) (h h' : Host),
      (∀ bytes, h.readKernel dest.length = (.ok bytes, h')
          → bytes.length = dest.length →
        MixedWithClock
          ⟨.source "kernel", bytes, system.sources.map Source.called, h'⟩
          (system.draw dest h))
      ∧ ∀ e, h.readKernel dest.length = (.error e, h') →
        MixedWithClock
          ⟨.fallback, cyclicSeed dest.length, system.sources.map Source.called,
            h'⟩
          (system.draw dest h) := by
  refine ⟨fun c hc dest h =>
    ⟨⟨_, firstDelivery_drawFrom hc, mixedWithClock_draw c dest h⟩,
      fun c' dest' hagree hdest => sameDraw_draw hagree hc hdest⟩,
      fun dest h h' => ⟨?_, ?_⟩⟩
  · intro bytes hkernel hlength
    exact drawFrom_system_of_ok hkernel hlength
      ▸ mixedWithClock_draw system dest h
  · intro e hkernel
    exact drawFrom_system_of_error hkernel ▸ mixedWithClock_draw system dest h

/-- A source that writes and fails, one that delivers, and one that is
not asked; and the kernel, read and not to be read. The bytes that the
first one writes are nowhere to be seen, and the third one has no call
counted. -/
theorem draw_is_first_delivery_past_failure :
    let leaky (written : Bytes) : Source :=
      ⟨"leaky", 0, fun _ _ h => (⟨written, .error .unavailable⟩, h)⟩
    let others : List Source :=
      [.ofBehaviour "steady" (.fixed 7), .ofBehaviour "idle" .fail]
    let c : Cascade := ⟨leaky [1, 2, 3] :: others⟩
    let h (answer : KernelAnswer) : Host :=
      ⟨Feed.ofList [] ⟨0, 5⟩, Feed.ofList [] answer⟩
    (∃ raw, FirstDelivery 4 c.sources (h (.failure 1)) raw
      ∧ MixedWithClock raw (c.draw [9, 9, 9, 9] (h (.failure 1))))
    ∧ SameDraw calls (c.draw [9, 9, 9, 9] (h (.failure 1)))
        ((⟨leaky [] :: others⟩ : Cascade).draw [0, 0, 0, 0] (h (.failure 1)))
    ∧ (c.draw [9, 9, 9, 9] (h (.failure 1))).bytes = [2, 7, 7, 7]
    ∧ (c.draw [9, 9, 9, 9] (h (.failure 1))).sources.calls = [1, 1, 0]
    ∧ (system.draw [9] (h (.failure 1))).origin = .fallback
    ∧ (system.draw [9] (h (.bytes [8]))).origin = .source "kernel" := by
  intro leaky others c h
  have hsteady : (Source.ofBehaviour "steady" (.fixed 7)).FillsWhole :=
    fun _ _ _ _ => Nat.le_of_eq List.length_replicate.symm
  have hfails (s : Source)
    (hs : ∀ call length h, (s.play call length h).1.outcome ≠ .ok ()) :
      s.FillsWhole := fun call length h hok => absurd hok (hs call length h)
  have hc : c.FillsWhole :=
    List.forall_mem_cons.mpr ⟨hfails _ fun _ _ _ => nofun,
      List.forall_mem_cons.mpr ⟨hsteady, List.forall_mem_singleton.mpr
        (hfails _ fun _ _ _ => nofun)⟩⟩
  have hself (s : Source) : Source.AgreeWhereDelivered s s :=
    ⟨rfl, rfl, fun _ _ _ => rfl, fun _ _ _ => rfl, fun _ => rfl⟩
  have hleaky : Source.AgreeWhereDelivered (leaky [1, 2, 3]) (leaky []) :=
    ⟨rfl, rfl, fun _ _ _ => rfl, fun _ _ _ => rfl, fun hok => nomatch hok⟩
  have hagree :
    List.Forall₂ Source.AgreeWhereDelivered c.sources (leaky [] :: others) :=
    .cons hleaky (.cons (hself _) (.cons (hself _) .nil))
  obtain ⟨hraw, hsame⟩ :=
    draw_is_first_delivery.1 c hc [9, 9, 9, 9] (h (.failure 1))
  have hsystem := draw_is_first_delivery.2 [9]
  exact ⟨hraw, hsame ⟨leaky [] :: others⟩ [0, 0, 0, 0] hagree rfl, by decide,
    rfl,
    ((hsystem _ _).2 _ rfl).origin_eq, ((hsystem _ _).1 [8] rfl rfl).origin_eq⟩

end Cascade

end Strongbox.Random
