import Strongbox.Random.Draws

/-!
# The draws that feed a generator

A generator over a cascade makes its draws one after the other, the
first two of them into one destination, and in between it is seeded,
reseeded and asked for bytes. `isFed_of_ofCascade` says that it is
nothing but the plain generator of `Strongbox.Random.Draws`: every
output is that of a `Drbg` that is given the numbered draws, exactly as
many draws have been made as there were calls for them, besides the two
at the beginning, and a call that is refused leaves everything as it
was.

That the draws can be numbered at all rests on `Cascade.draw_congr`.
Sources that keep their word write over whatever a destination held, and
those that fail have what they wrote wiped behind them; so a draw is the
same into the bytes of the one before it as into zeros.

## Two steps

First, a draw does not depend on what its destination held. That is a
fact about one draw, by induction over the sources (`drawFrom_congr`):
the one that delivers has written everything, and the ones before it are
asked on zeros or leave zeros.

Then, a history is an induction over calls. What is carried along is
that the sources and the host are those after `k` numbered draws, and
that the generator is the plain one with what the history has passed on
so far (`run_eq`). A call makes no draw or one; in the second case the
draw it makes is number `k`, by the first step, and `k` goes up by one.

The conditions on sources are about what a source is, not about how
often it has been called, and so they hold of the sources after any
number of draws (`forall_afterDraws`).
-/

namespace Strongbox

/-- Copying over all of a destination leaves nothing of it. This is the
case of a source that keeps its word. -/
theorem Bytes.overwrite_of_length_le {src dest : Bytes}
    (h : dest.length ≤ src.length) :
    overwrite src dest = src.take dest.length := by
  unfold overwrite
  rw [List.drop_of_length_le h, List.append_nil]

/-- A pattern fills a length. The pattern must not be empty, or it would
fill nothing. -/
theorem Bytes.length_repeated {pattern : Bytes} (h : 0 < pattern.length)
    (n : Nat) :
    (repeated pattern n).length = n := by
  have hle : n ≤ (n / pattern.length + 1) * pattern.length := by
    rw [Nat.mul_comm]
    exact Nat.le_of_lt (Nat.lt_mul_div_succ n h)
  unfold repeated
  rw [List.length_take, List.length_flatten, List.map_replicate,
    List.sum_replicate_nat]
  exact Nat.min_eq_left hle

namespace Random

/-- The source with one more call counted. It is what a cascade keeps of
a source that it has asked, whether it has delivered or failed. -/
def Source.called (s : Source) : Source := { s with calls := s.calls + 1 }

/-- What a source is, apart from how often it has been called. Asking
does not change it, and so a property of it holds for all time. -/
def Source.nature (s : Source) :
    String × ((call length : Nat) → Host → Play × Host) :=
  (s.name, s.play)

namespace Cascade

/-! ## One draw -/

section DrawFrom

variable {s : Source} {rest sources : List Source} {dest : Bytes} {h : Host}

/-- The first source delivers. The others are not asked, and the
destination holds what it has written over what was there. -/
theorem drawFrom_delivered
    (ho : (s.play s.calls dest.length h).1.outcome = .ok ()) :
    drawFrom (s :: rest) dest h
      = ⟨.source s.name,
        Bytes.overwrite (s.play s.calls dest.length h).1.write dest,
        s.called :: rest, (s.play s.calls dest.length h).2⟩ := by
  simp only [drawFrom, Source.fill, ho]
  rfl

/-- The first source fails, and the others are asked. They find zeros in
the destination, whatever was written. -/
theorem drawFrom_failed {e : EntropyError}
    (ho : (s.play s.calls dest.length h).1.outcome = .error e) :
    drawFrom (s :: rest) dest h
      = let drawn :=
        drawFrom rest (Bytes.zeros dest.length) (s.play s.calls dest.length h).2
        { drawn with sources := s.called :: drawn.sources } := by
  simp only [drawFrom, Source.fill, ho, Bytes.length_overwrite]
  rfl

/-- Asking keeps the length of the destination, however much or little
the sources write. -/
@[simp] theorem length_bytes_drawFrom :
    (drawFrom sources dest h).bytes.length = dest.length := by
  induction sources generalizing dest h with
  | nil => exact Bytes.length_repeated (by decide) dest.length
  | cons s rest ih =>
    cases ho : (s.play s.calls dest.length h).1.outcome with
    | ok _ =>
      rw [drawFrom_delivered ho]
      exact Bytes.length_overwrite ..
    | error e =>
      rw [drawFrom_failed ho]
      exact ih.trans (Bytes.length_zeros _)

/-- The sources stay what they are, in their order. Only their calls are
counted, and those of the sources behind the first delivery not even
that. -/
theorem map_nature_drawFrom :
    (drawFrom sources dest h).sources.map Source.nature
      = sources.map Source.nature := by
  induction sources generalizing dest h with
  | nil => rfl
  | cons s rest ih =>
    cases ho : (s.play s.calls dest.length h).1.outcome with
    | ok _ =>
      rw [drawFrom_delivered ho]
      rfl
    | error e =>
      rw [drawFrom_failed ho]
      exact congrArg (s.nature :: ·) ih

/-- The first source is asked, once. How often the others are asked
depends on how it ends. -/
theorem head?_calls_drawFrom :
    ((drawFrom sources dest h).sources.map Source.calls).head?
      = (sources.map Source.calls).head?.map (· + 1) := by
  cases sources with
  | nil => rfl
  | cons s rest =>
    cases ho : (s.play s.calls dest.length h).1.outcome with
    | ok _ => rw [drawFrom_delivered ho]; rfl
    | error e => rw [drawFrom_failed ho]; rfl

/-- Sources that do not read the clock leave it where it is. The draw
reads it afterwards, for the mixing. -/
theorem clock_drawFrom (hs : ∀ s ∈ sources, s.SparesClock) :
    (drawFrom sources dest h).host.clock = h.clock := by
  induction sources generalizing dest h with
  | nil => rfl
  | cons s rest ih =>
    have hfirst := hs s (List.mem_cons_self ..) s.calls dest.length h
    cases ho : (s.play s.calls dest.length h).1.outcome with
    | ok _ =>
      rw [drawFrom_delivered ho]
      exact hfirst
    | error e =>
      rw [drawFrom_failed ho]
      exact (ih fun s hs' => hs s (List.mem_cons_of_mem _ hs')).trans hfirst

/-- Of sources that keep their word nothing that was in the destination
comes through. A source that fails has its writing wiped, and the one
that delivers writes over everything. -/
theorem drawFrom_congr (hs : ∀ s ∈ sources, s.FillsWhole) {dest₁ dest₂ : Bytes}
    (hdest : dest₁.length = dest₂.length) :
    drawFrom sources dest₁ h = drawFrom sources dest₂ h := by
  cases sources with
  | nil =>
    unfold drawFrom
    rw [hdest]
  | cons s rest =>
    -- Only the first source sees the destination: the others see zeros.
    cases ho : (s.play s.calls dest₂.length h).1.outcome with
    | ok _ =>
      have hle := hs s (List.mem_cons_self ..) s.calls dest₂.length h ho
      rw [drawFrom_delivered ho, drawFrom_delivered (hdest ▸ ho), hdest,
        Bytes.overwrite_of_length_le hle,
        Bytes.overwrite_of_length_le (hdest ▸ hle), hdest]
    | error e => rw [drawFrom_failed ho, drawFrom_failed (hdest ▸ ho), hdest]

end DrawFrom

variable {c : Cascade} {h : Host}

/-- **No draw depends on what its destination held before.** The clock
is read afterwards in both cases, and is the same; the mixing goes by
the delivered bytes and the clock alone. -/
theorem draw_congr (hc : c.FillsWhole) {dest₁ dest₂ : Bytes}
    (hdest : dest₁.length = dest₂.length) :
    c.draw dest₁ h = c.draw dest₂ h := by
  unfold draw
  rw [drawFrom_congr hc hdest]

/-- A draw keeps the length of its destination: the mixing with the
clock changes bytes, and adds none. -/
@[simp] theorem length_bytes_draw (dest : Bytes) :
    (c.draw dest h).bytes.length = dest.length := by
  unfold draw
  rw [Bytes.length_mixInto, length_bytes_drawFrom]

/-! ## Draws one after the other -/

/-- The sources after a number of draws are those at the beginning,
called more often. -/
theorem map_nature_afterDraws (k : Nat) :
    (c.afterDraws h k).1.sources.map Source.nature
      = c.sources.map Source.nature := by
  induction k with
  | zero => rfl
  | succ k ih => exact map_nature_drawFrom.trans ih

/-- What is true of all sources, however often they have been called,
stays true of them. It is stated for any property, and used for the two
below. -/
theorem forall_afterDraws {P : Source → Prop}
    (hP : ∀ {s s' : Source}, s.nature = s'.nature → P s → P s')
    (hc : ∀ s ∈ c.sources, P s) (k : Nat) :
    ∀ s ∈ (c.afterDraws h k).1.sources, P s := by
  intro s hs
  have hmem := List.mem_map_of_mem (f := Source.nature) hs
  rw [map_nature_afterDraws] at hmem
  obtain ⟨s', hs', hnature⟩ := List.mem_map.mp hmem
  exact hP hnature (hc s' hs')

/-- Sources that keep their word go on keeping it, since the promise is
made for every call that they will ever get. -/
theorem FillsWhole.afterDraws (hc : c.FillsWhole) (k : Nat) :
    (c.afterDraws h k).1.FillsWhole := by
  refine forall_afterDraws (fun {s s'} hnature hs => ?_) hc k
  have hplay : s.play = s'.play := congrArg Prod.snd hnature
  unfold Source.FillsWhole
  rwa [← hplay]

/-- Sources that do not read the clock go on so, for the same reason. -/
theorem SparesClock.afterDraws (hc : c.SparesClock) (k : Nat) :
    (c.afterDraws h k).1.SparesClock := by
  refine forall_afterDraws (fun {s s'} hnature hs => ?_) hc k
  have hplay : s.play = s'.play := congrArg Prod.snd hnature
  unfold Source.SparesClock
  rwa [← hplay]

/-- The names are shown as they were at the beginning: draws rename
nothing and put no source before another. -/
theorem describe_afterDraws (k : Nat) :
    (c.afterDraws h k).1.describe = c.describe := by
  have hnames :=
    congrArg (List.map Prod.fst) (c.map_nature_afterDraws (h := h) k)
  rw [List.map_map, List.map_map] at hnames
  exact congrArg Text.quotedList hnames

/-- **Every draw is a numbered one**, whatever its destination held. It
is what gives a draw its number. -/
theorem draw_afterDraws (hc : c.FillsWhole) (k : Nat) {dest : Bytes}
    (hdest : dest.length = 64) :
    (c.afterDraws h k).1.draw dest (c.afterDraws h k).2 = c.numberedDraw h k :=
  draw_congr (hc.afterDraws k) (hdest.trans (Bytes.length_zeros _).symm)

/-- The clock has been read once for each draw. The draw itself does it,
after its sources. -/
theorem clock_afterDraws (hc : c.SparesClock) (k : Nat) :
    (c.afterDraws h k).2.clock.taken = h.clock.taken + k := by
  induction k with
  | zero => rfl
  | succ k ih =>
    show (drawFrom _ _ _).host.clock.taken + 1 = _
    rw [clock_drawFrom (hc.afterDraws k), ih, Nat.add_assoc]

/-- The first source has been called once for each draw. Each draw
begins with it. -/
theorem head?_calls_afterDraws (k : Nat) :
    (c.afterDraws h k).1.calls.head? = c.calls.head?.map (· + k) := by
  induction k with
  | zero => exact Option.map_id'.symm
  | succ k ih =>
    refine head?_calls_drawFrom.trans ?_
    rw [show ((c.afterDraws h k).1.sources.map Source.calls).head? = _ from ih,
      Option.map_map]
    rfl

end Cascade

namespace Rng

variable {c : Cascade} {h : Host}

/-! ## One call -/

/-- **A generator is made from the first two draws.** The second one is
made into the bytes of the first, which makes no difference. The sources
and the host go on as after two draws, numbered zero and one. -/
theorem ofCascade_eq (hc : c.FillsWhole) :
    ofCascade c h
      = (⟨(Drbg.ofSeed (c.numberedDraw h 0).bytes).reseed augmentLabel
          (c.numberedDraw h 1).bytes,
          (c.afterDraws h 2).1⟩, (c.afterDraws h 2).2) := by
  have hsecond :
    (c.afterDraws h 1).1.draw (c.numberedDraw h 0).bytes (c.afterDraws h 1).2
      = c.numberedDraw h 1 :=
    Cascade.draw_afterDraws hc 1
      ((Cascade.length_bytes_draw _).trans (Bytes.length_zeros _))
  unfold ofCascade
  have hfirst : c.draw (Bytes.zeros seedLength) h = c.numberedDraw h 0 := rfl
  have hdrawn : ((c.numberedDraw h 0).sources, (c.numberedDraw h 0).host)
    = c.afterDraws h 1 := rfl
  have hsources := congrArg Prod.fst hdrawn
  have hhost := congrArg Prod.snd hdrawn
  dsimp only at hsources hhost ⊢
  rw [hfirst, hsources, hhost, hsecond]
  rfl

/-- **One call**: the answer is that of the plain generator or of the
draw, and both go on as they should. All five kinds of calls are in this
one equation, so that the induction over a history has one case. -/
theorem step_eq {r : Rng} {host : Host} {k : Nat}
    (hr : (r.cascade, host) = c.afterDraws h k) (call : Call) :
    r.step host call
      = (call.answer c r.drbg (c.numberedDraw h k).origin,
          ⟨(r.drbg.run (call.plain? (c.numberedDraw h k).bytes).toList).2,
            (c.afterDraws h (k + call.draws)).1⟩,
              (c.afterDraws h (k + call.draws)).2) := by
  obtain ⟨drbg, cascade⟩ := r
  obtain rfl : cascade = (c.afterDraws h k).1 := congrArg Prod.fst hr
  obtain rfl : host = (c.afterDraws h k).2 := congrArg Prod.snd hr
  cases call with
  | seed material =>
    unfold step seed Call.answer Call.plain?
    by_cases hm : material.isEmpty = true
    · simp only [if_pos hm]
      rfl
    · simp only [if_neg hm]
      rfl
  | randomSeed => rfl
  | bytes n =>
    unfold step bytes Call.answer Call.plain?
    by_cases hn : n = 0
    · simp only [if_pos hn]
      rfl
    · simp only [if_neg hn]
      rfl
  | generator call => rfl
  | describe =>
    show (Reply.generator (.text (Rng.describe ⟨drbg, (c.afterDraws h k).1⟩)),
        _) = _
    unfold describe
    rw [Cascade.describe_afterDraws]
    rfl

/-- **The bytes put out by a call** are those put out by the plain
generator. What is not passed on puts nothing out: a refusal, the origin
of a draw, a description. -/
theorem output_answer (call : Call) (drbg : Drbg)
    (drawn : Cascade.Draw Cascade) :
    (call.answer c drbg drawn.origin).output
      = (drbg.run (call.plain? drawn.bytes).toList).1.flatMap
        Drbg.Reply.output := by
  cases call with
  | seed material =>
    simp only [Call.answer, Call.plain?]
    by_cases hm : material.isEmpty = true
    · simp only [if_pos hm]
      rfl
    · simp only [if_neg hm]
      rfl
  | randomSeed => rfl
  | bytes n =>
    simp only [Call.answer, Call.plain?]
    by_cases hn : n = 0
    · simp only [if_pos hn]
      rfl
    · simp only [if_neg hn]
      exact (List.append_nil _).symm
  | generator call => exact (List.append_nil _).symm
  | describe => rfl

/-- **A call that is refused changes nothing.** There are two refusals,
and neither gets as far as the generator, the sources or the host. -/
theorem step_of_refused {r : Rng} {host : Host} {call : Call} {e : RequestError}
    (h : (r.step host call).1 = .refused e) :
    (r.step host call).2 = (r, host) := by
  cases call with
  | seed material =>
    unfold step seed at h ⊢
    by_cases hm : material.isEmpty = true
    · simp only [if_pos hm]
    · simp only [if_neg hm] at h
      cases h
  | bytes n =>
    unfold step bytes at h ⊢
    by_cases hn : n = 0
    · simp only [if_pos hn]
    · simp only [if_neg hn] at h
      cases h
  | randomSeed | generator _ | describe => cases h

/-! ## Histories -/

/-- A history of the plain generator may be cut anywhere, the second
part going on from the generator that the first has left. -/
theorem run_append (d : Drbg) (a b : List Drbg.Call) :
    d.run (a ++ b)
      = ((d.run a).1 ++ ((d.run a).2.run b).1, ((d.run a).2.run b).2) := by
  induction a generalizing d with
  | nil => rfl
  | cons call a ih =>
    simp only [List.cons_append, Drbg.run, ih]

/-- **A history, from any number of draws on.** The invariant is that
the sources and the host are those after `k` draws; each call adds none
or one, and the next one finds the invariant for the new number. -/
theorem run_eq {r : Rng} {host : Host} {k : Nat}
    (hr : (r.cascade, host) = c.afterDraws h k) (calls : List Call) :
    let plain :=
      r.drbg.run (plainHistory (fun k => (c.numberedDraw h k).bytes) k calls)
    let draws := c.afterDraws h (k + calls.count .randomSeed)
    (r.run host calls).1.flatMap Reply.output
      = plain.1.flatMap Drbg.Reply.output
      ∧ (r.run host calls).2 = (⟨plain.2, draws.1⟩, draws.2) := by
  induction calls generalizing r host k with
  | nil =>
    refine ⟨rfl, ?_⟩
    show (r, host) = (⟨r.drbg, (c.afterDraws h k).1⟩, (c.afterDraws h k).2)
    rw [← hr]
  | cons call calls ih =>
    have hcount : k + call.draws + calls.count .randomSeed
        = k + (call :: calls).count .randomSeed := by
      rw [List.count_cons, Nat.add_assoc, Nat.add_comm (Call.draws call)]
      simp only [Call.draws, beq_iff_eq]
    have hstep := step_eq hr call
    have hnext : ((r.step host call).2.1.cascade, (r.step host call).2.2)
        = c.afterDraws h (k + call.draws) := by rw [hstep]
    obtain ⟨houtput, hafter⟩ := ih hnext
    rw [hcount] at hafter
    -- What the plain generator is given is what this call passes on, and the
    -- rest.
    have hplain :
      plainHistory (fun k => (c.numberedDraw h k).bytes) k (call :: calls)
        = (call.plain? (c.numberedDraw h k).bytes).toList
          ++ plainHistory (fun k => (c.numberedDraw h k).bytes) (k + call.draws)
            calls := rfl
    have hdrbg : (r.step host call).2.1.drbg
        = (r.drbg.run (call.plain? (c.numberedDraw h k).bytes).toList).2 := by
          rw [hstep]
    have hreply : (r.step host call).1.output
        = (r.drbg.run (call.plain? (c.numberedDraw h k).bytes).toList).1.flatMap
            Drbg.Reply.output := by
      rw [hstep]
      exact output_answer call r.drbg (c.numberedDraw h k)
    rw [hdrbg] at houtput hafter
    rw [hplain, run_append]
    refine ⟨?_, hafter⟩
    show (r.step host call).1.output
      ++ ((r.step host call).2.1.run (r.step host call).2.2 calls).1.flatMap
        Reply.output = _
    rw [houtput, hreply, List.flatMap_append]

/-- The plain generator begins with a seed and a reseeding. What follows
is what the history passes on, counted from the third draw. -/
theorem plainRun_eq (c : Cascade) (h : Host) (calls : List Call) :
    plainRun c h calls
      = let made := (Drbg.ofSeed (c.numberedDraw h 0).bytes).reseed augmentLabel
          (c.numberedDraw h 1).bytes
        let plain :=
          made.run (plainHistory (fun k => (c.numberedDraw h k).bytes) 2 calls)
        (.done :: plain.1, plain.2) := rfl

/-- **A generator over a cascade is the plain generator fed by numbered
draws**, after a history. Each field is one of the things that could be
otherwise. -/
structure IsFed (c : Cascade) (h : Host) (calls : List Call)
    (replies : List Reply) (r : Rng) (host : Host) : Prop where
  /-- The bytes put out are those of the plain generator. -/
  outputs : replies.flatMap Reply.output
    = (plainRun c h calls).1.flatMap Drbg.Reply.output
  /-- The generator inside is the plain generator. -/
  drbg : r.drbg = (plainRun c h calls).2
  /-- Two draws have been made at the beginning, and one for each call
  for a new draw; and nothing else has been asked of the sources or of
  the host. -/
  draws : (r.cascade, host) = c.afterDraws h (2 + calls.count .randomSeed)
  /-- The first source has been called as often. -/
  sourceCalls : r.cascade.calls.head?
    = c.calls.head?.map (· + (2 + calls.count .randomSeed))
  /-- So often has the clock been read, if no source reads it. -/
  clock : c.SparesClock
    → host.clock.taken = h.clock.taken + (2 + calls.count .randomSeed)
  /-- **Any next call is answered** by the plain generator, or with the
  origin of its own draw, or refused. -/
  answer (call : Call) : (r.step host call).1
    = call.answer c r.drbg
      (c.numberedDraw h (2 + calls.count .randomSeed)).origin
  /-- A refused call changes nothing. -/
  refused {call : Call} {e : RequestError} :
    (r.step host call).1 = .refused e → (r.step host call).2 = (r, host)
  /-- Every draw is the same into any destination, among others into the
  bytes of the draw before it. -/
  independent (k : Nat) {dest : Bytes} : dest.length = 64 →
    (c.afterDraws h k).1.draw dest (c.afterDraws h k).2 = c.numberedDraw h k

/-- **A generator is fed by the numbered draws of its cascade**, if the
sources keep their word: after every history, however the sources behave
from one call to the next and whatever the clock and the kernel say. The
plain generator on the other side is reseeded under the three labels and
never sees a source; between them stand only the bytes of the draws. -/
theorem isFed_of_ofCascade (c : Cascade) (hc : c.FillsWhole) (h : Host)
    (calls : List Call) :
    let made := ofCascade c h
    let after := made.1.run made.2 calls
    IsFed c h calls after.1 after.2.1 after.2.2 := by
  intro made after
  have hmade : made = _ := ofCascade_eq hc
  have hstart : (made.1.cascade, made.2) = c.afterDraws h 2 := by rw [hmade]
  obtain ⟨houtput, hafter⟩ := run_eq hstart calls
  have hdrbg : made.1.drbg
    = (Drbg.ofSeed (c.numberedDraw h 0).bytes).reseed augmentLabel
      (c.numberedDraw h 1).bytes := by rw [hmade]
  rw [hdrbg] at houtput hafter
  have hcascade : after.2.1.cascade
    = (c.afterDraws h (2 + calls.count .randomSeed)).1 :=
    congrArg (·.1.cascade) hafter
  have hhost : after.2.2 = (c.afterDraws h (2 + calls.count .randomSeed)).2 :=
    congrArg (·.2) hafter
  have hdraws : (after.2.1.cascade, after.2.2)
      = c.afterDraws h (2 + calls.count .randomSeed) := by rw [hcascade, hhost]
  exact
    { outputs := by
        rw [plainRun_eq, List.flatMap_cons]
        exact houtput
      drbg := congrArg (·.1.drbg) hafter
      draws := hdraws
      sourceCalls := by rw [hcascade, Cascade.head?_calls_afterDraws]
      clock := fun hclock => by rw [hhost, Cascade.clock_afterDraws hclock]
      answer := fun call => congrArg Prod.fst (step_eq hdraws call)
      refused := fun hrefused => step_of_refused hrefused
      independent := fun k _ hdest => Cascade.draw_afterDraws hc k hdest }

/-- A source that fails at first, when it has written three bytes, and
delivers from then on. The seed is the fallback, and everything after it
is the source's. -/
theorem isFed_of_ofCascade_late :
    let late : Source := ⟨"late", 0, fun call length h =>
      (if call = 0 then ⟨[1, 2, 3], .error .unavailable⟩
          else ⟨List.replicate length 5, .ok ()⟩, h)⟩
    let c : Cascade := ⟨[late]⟩
    let h : Host := ⟨Feed.ofList [⟨1, 2⟩] ⟨0, 0⟩, Feed.ofList [] (.failure 1)⟩
    let made := ofCascade c h
    let after := made.1.run made.2 [.seed [9], .bytes 0, .randomSeed]
    (c.numberedDraw h 0).origin = .fallback
      ∧ (c.numberedDraw h 1).origin = .source "late"
      ∧ (after.2.1.step after.2.2 .randomSeed).1 = .origin (.source "late")
      ∧ after.2.1.cascade.calls.head? = some 3 ∧ after.2.2.clock.taken = 3 := by
  intro late c h made after
  have hfills : c.FillsWhole := by
    intro s hs call length h hok
    obtain rfl := List.mem_singleton.mp hs
    change (if call = 0 then (_ : Play) else _).outcome = _ at hok
    show length ≤ (if call = 0 then (_ : Play) else _).write.length
    by_cases hcall : call = 0
    · rw [if_pos hcall] at hok
      cases hok
    · rw [if_neg hcall]
      exact Nat.le_of_eq List.length_replicate.symm
  have hspares : c.SparesClock := by
    intro s hs call length h
    obtain rfl := List.mem_singleton.mp hs
    rfl
  have hfed := isFed_of_ofCascade c hfills h [.seed [9], .bytes 0, .randomSeed]
  exact ⟨rfl, rfl, hfed.answer .randomSeed, hfed.sourceCalls,
    hfed.clock hspares⟩

end Rng

end Random

end Strongbox
