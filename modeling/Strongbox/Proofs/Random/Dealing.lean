import Strongbox.Proofs.Random.Stream
import Strongbox.Proofs.Random.Succession
import Strongbox.Random.Clients

/-!
# The stream of the one generator is dealt out

As long as it is the same generator and nothing new comes in, all that
clients have of it is one stream of words. The main statement,
`stream_is_dealt_out`, says that they have it in the order in which they
took the lock, one behind the other: to each request the words that
cover it, and no word twice, and none to nobody.

A turn is taken apart into `Event`s, one for each thing that happens to
the generator. Most turns are one event. Those under a guard are as many
as there are calls, with nothing in between; the counter of a session
and the random bytes of its first nonce are two turns, between which
there may be others. What happens to a `Succession` in an event is
`Succession.serve`, and that this is all that happens in a turn is what
the lemmas up to `run_eq_serveAll` say. A generator that is made on
demand counts as there from the beginning, since nothing but a request
reads what it will be made of.

## Stretches

A stretch of events keeps the stream if every event of it does. Within
it the generator is one and the same, and its stream is the one it had
at the beginning of the stretch; where the stretch ends, because a
generator is configured or new material comes in, another stream begins,
of which the same can be said. The statement is about every stretch and
every part of it, so that nothing has to be assumed of the whole
history.

## Nobody's words

A request gets the words that cover it, and the next one begins behind
them. That no word goes to two requests and none to nobody is not said
in so many words: it is what it means that the answers are the segments
of one row of positions, one behind the other. The positions that an
event takes are as many as it needs, and where it begins is how many the
events before it have needed.
-/

namespace Strongbox.Random

/-! ## Dealing -/

/-- **Deals words out** to requests for so many bytes: to each, in
order, the words that cover it, of which it has the beginning. It is a
function of the words and the sizes alone, with no generator in it. -/
def deal : List UInt32 → List Nat → List Bytes
  | _, [] => []
  | words, size :: sizes =>
    ((words.take (wordsFor size)).flatMap Bytes.ofWord).take size
      :: deal (words.drop (wordsFor size)) sizes

/-- The first request has the first words of a segment. What is left is
a segment again, and is dealt out to the others. -/
theorem deal_segment_cons {ρ : Type} (next : ρ → UInt32 × ρ) (r : ρ)
    (first more size : Nat) (sizes : List Nat) :
    deal (segment next r first (wordsFor size + more)) (size :: sizes)
      = ((segment next r first (wordsFor size)).flatMap Bytes.ofWord).take size
        :: deal (segment next r (first + wordsFor size) more) sizes := by
  have hlength := length_segment next r first (wordsFor size)
  rw [deal, segment_add, List.take_left' hlength, List.drop_left' hlength]

/-! ## Events -/

/-- **What may happen to the one generator** while somebody holds the
lock. A client that fails, and one that takes the lock, are no events:
nothing happens to the generator. -/
inductive Event where
  /-- It is asked, and made first if there is none. -/
  | ask (call : Rng.Call)
  /-- It is looked for. -/
  | look
  /-- One over a cascade takes its place. -/
  | configure (cascade : Cascade)
  /-- It goes. -/
  | shutdown

namespace Event

/-- How many random bytes are asked for. Only a request asks for any;
looking, configuring and shutting down have an empty answer. -/
def size : Event → Nat
  | ask call => call.size
  | look | configure _ | shutdown => 0

/-- How many words of the stream cover them. It is the number of
positions that the event takes. -/
def need (e : Event) : Nat := wordsFor e.size

/-- How many words that is for events one after another. It is where the
next event begins. -/
def needOfAll : List Event → Nat
  | [] => 0
  | e :: events => e.need + needOfAll events

/-- **Whether it stays the same generator** with nothing new taken in.
Looking does, and so does every request that brings nothing new. -/
def keepsStream : Event → Bool
  | ask call => call.keepsStream
  | look => true
  | configure _ | shutdown => false

end Event

namespace Succession

variable {s : Succession} {e : Event} {events : List Event}

/-- **The generator that answers**, without its sources. If there is
none, it is the one that a request would make. -/
def generator (s : Succession) : Drbg := s.current.1.drbg

/-- What comes of an event: the random bytes handed out, and what there
is after it. It is stated of a succession, which has neither lock nor
place. -/
def serve (s : Succession) : Event → Bytes × Succession
  | .ask call => ((s.ask call).1.output, (s.ask call).2)
  | .look => ([], s)
  | .configure cascade => ([], s.configure cascade)
  | .shutdown => ([], s.shutdown)

/-- What comes of events, one after another. There is one answer for
every event, and it may be empty. -/
def serveAll (s : Succession) : List Event → List Bytes × Succession
  | [] => ([], s)
  | e :: events =>
    ((s.serve e).1 :: ((s.serve e).2.serveAll events).1,
      ((s.serve e).2.serveAll events).2)

/-- Events may be cut anywhere: the later ones go on from what the
earlier ones leave. -/
theorem serveAll_append (s : Succession) (events later : List Event) :
    s.serveAll (events ++ later)
      = ((s.serveAll events).1 ++ ((s.serveAll events).2.serveAll later).1,
          ((s.serveAll events).2.serveAll later).2) := by
  induction events generalizing s with
  | nil => rfl
  | cons e events ih => simp only [List.cons_append, serveAll, ih]

@[simp] theorem length_serveAll (s : Succession) (events : List Event) :
    (s.serveAll events).1.length = events.length := by
  induction events generalizing s with
  | nil => rfl
  | cons e events ih => exact congrArg (· + 1) (ih _)

/-- **An event that keeps the stream is a draw** from it. The generator
is made if there is none, and the draw is from the one that is there
then. -/
theorem serve_eq_draw (s : Succession) (h : e.keepsStream = true) :
    ((s.serve e).1, (s.serve e).2.generator)
      = draw Drbg.word s.generator e.size := by
  cases e with
  | ask call =>
    obtain ⟨houtput, hnext⟩ := s.current.1.step_eq_draw s.current.2 h
    refine Prod.ext houtput ?_
    show (s.current.1.step s.current.2 call).2.1.drbg = _
    rw [hnext]
    rfl
  | look => rfl
  | configure cascade => exact Bool.noConfusion h
  | shutdown => exact Bool.noConfusion h

/-- **Events that keep the stream share a segment of it**, and the
stream goes on behind it. By induction over the events, each of which is
a draw from where the one before it has ended. -/
theorem serveAll_eq_deal (s : Succession)
    (h : ∀ e ∈ events, e.keepsStream = true) :
    (s.serveAll events).1
        = deal (segment Drbg.word s.generator 0 (Event.needOfAll events))
            (events.map Event.size)
      ∧ (s.serveAll events).2.generator
        = (takeWords Drbg.word (Event.needOfAll events) s.generator).2 := by
  induction events generalizing s with
  | nil => exact ⟨rfl, rfl⟩
  | cons e events ih =>
    obtain ⟨hfirst, hlater⟩ := List.forall_mem_cons.mp h
    have hdraw := s.serve_eq_draw hfirst
    have houtput : (s.serve e).1
        = ((segment Drbg.word s.generator 0 e.need).flatMap Bytes.ofWord).take
          e.size :=
      congrArg Prod.fst hdraw
    have hnext : (s.serve e).2.generator
      = (takeWords Drbg.word e.need s.generator).2 :=
      congrArg Prod.snd hdraw
    obtain ⟨houtputs, hlast⟩ := ih (s.serve e).2 hlater
    simp only [serveAll, List.map_cons, Event.needOfAll]
    constructor
    · rw [houtput, houtputs, hnext, segment_takeWords, Nat.add_comm e.need 0]
      exact (deal_segment_cons ..).symm
    · rw [hlast, hnext, takeWords_add]

/-- The same behind a stretch of the stream that has been handed out.
The words that the stretch has needed are passed over. -/
theorem serveAll_after_stretch (s : Succession) {stretch : List Event}
    (h : ∀ e ∈ stretch ++ events, e.keepsStream = true) :
    ((s.serveAll stretch).2.serveAll events).1
      = deal (segment Drbg.word s.generator (Event.needOfAll stretch)
          (Event.needOfAll events))
          (events.map Event.size) := by
  obtain ⟨hstretch, hevents⟩ := List.forall_mem_append.mp h
  obtain ⟨-, hgenerator⟩ := s.serveAll_eq_deal hstretch
  obtain ⟨houtputs, -⟩ := (s.serveAll stretch).2.serveAll_eq_deal hevents
  rw [houtputs, hgenerator, segment_takeWords, Nat.add_zero]

end Succession

/-! ## Calls are events -/

namespace SharedRng

/-- What happens in a call under a guard. The guard's own description
only looks. -/
def GuardCall.event : GuardCall → Event
  | ask call => .ask call
  | describe => .look

/-- **What happens in a call**, all of it under one hold of the lock. A
fill of nothing does not even look, but it has an answer, which is
empty. -/
def Call.events : Call → List Event
  | configure cascade => [.configure cascade]
  | shutdown => [.shutdown]
  | isInitialized => [.look]
  | ask call => [.ask call]
  | fill 0 => [.look]
  | fill n => [.ask (.generator (.fill n))]
  | key n => [.ask (.bytes n)]
  | guarded calls | abandoned calls => calls.map GuardCall.event

/-- **The random bytes in an answer**, event by event. A refusal gives
none, and has its place all the same. -/
def Reply.outputs : Reply → List Bytes
  | answer reply => [reply.output]
  | initialized _ | done => [[]]
  | key (.ok value) => [value.toList]
  | key (.error _) => [[]]
  | guarded replies => replies.map Rng.Reply.output

end SharedRng

namespace Succession

/-- A call under a guard is its event. The lock is not taken for it, so
that there is nothing else in it. -/
theorem guardStep_eq_serve (s : Succession) (call : SharedRng.GuardCall) :
    ((s.guardStep call).1.output, (s.guardStep call).2)
      = s.serve call.event := by
  cases call <;> rfl

theorem guardRun_eq_serveAll (s : Succession)
    (calls : List SharedRng.GuardCall) :
    ((s.guardRun calls).1.map Rng.Reply.output, (s.guardRun calls).2)
      = s.serveAll (calls.map SharedRng.GuardCall.event) := by
  induction calls generalizing s with
  | nil => rfl
  | cons call calls ih =>
    simp only [guardRun, List.map_cons, serveAll, ← guardStep_eq_serve, ← ih]

/-- A key is the bytes of a request for so many. A refused key is a
request that was refused. -/
theorem key_eq_serve (s : Succession) (n : Nat) :
    ((SharedRng.Reply.key (s.key n).1).outputs, (s.key n).2)
      = s.serveAll [.ask (.bytes n)] := by
  simp only [serveAll, serve, ask, Rng.step, key]
  cases h : s.current.1.bytes n with
  | ok drawn =>
    show ([(Buffer.ofList drawn.1).toList], _) = _
    rw [(Buffer.Holds.ofList drawn.1).toList_eq]
    rfl
  | error e => rfl

/-- **What a call does to a succession is its events**, for every call:
one of them, or for a guard as many as there are calls under it. -/
theorem step_eq_serveAll (s : Succession) (call : SharedRng.Call) :
    ((s.step call).1.outputs, (s.step call).2) = s.serveAll call.events := by
  cases call with
  | configure | shutdown | isInitialized | ask => rfl
  | fill n => cases n <;> rfl
  | key n => exact s.key_eq_serve n
  | guarded calls => exact s.guardRun_eq_serveAll calls
  | abandoned calls => exact s.guardRun_eq_serveAll calls

end Succession

/-- **What a call does to the one generator** is its events, since the
one generator is a succession. -/
theorem SharedRng.step_eq_serveAll (s : SharedRng) (call : SharedRng.Call) :
    ((s.step call).1.outputs, (s.step call).2.succession)
      = s.succession.serveAll call.events := by
  rw [← Succession.step_eq_serveAll, ← s.step_eq]

/-! ## Turns are events -/

/-- **The random bytes in what a client has of a turn**, event by event.
The counter in front of a nonce is no random bytes of this turn. It has
had its own turn. -/
def Answer.outputs : Answer → List Bytes
  | .reply answered => answered.outputs
  | .counter _ value => [Bytes.ofWord value]
  | .nonce _ value => [value.drop counterLength]

namespace Clients

variable {κ : Type} [DecidableEq κ]

/-- **What happens in a turn.** Which it is depends on whether the
session has its counter. -/
def eventsOf (c : Clients κ) (client : κ) : Turn → List Event
  | .call call => call.events
  | .nonce session =>
    let s := c.sessions client session
    match s.counter? with
    | none => [.ask .word]
    | some _ => (SharedRng.Call.fill (s.length - counterLength)).events

/-- **What happens in turns**, turn by turn. What a turn is depends on
the turns before it. -/
def events (c : Clients κ) : List (κ × Turn) → List (List Event)
  | [] => []
  | (client, turn) :: turns =>
    c.eventsOf client turn :: (c.turn client turn).2.events turns

/-- **What a turn does is its events**: a call, the counter of a
session, or the random bytes of a nonce. -/
theorem turn_eq_serveAll (c : Clients κ) (client : κ) (turn : Turn) :
    ((c.turn client turn).1.outputs, (c.turn client turn).2.shared.succession)
      = c.shared.succession.serveAll (c.eventsOf client turn) := by
  cases turn with
  | call call => exact c.shared.step_eq_serveAll call
  | nonce session =>
    unfold eventsOf
    dsimp only
    cases hcounter : (c.sessions client session).counter? with
    | none =>
      rw [c.turn_nonce_of_none hcounter]
      exact congrArg
        (fun asked : Rng.Reply × Succession => ([asked.1.output], asked.2))
        c.shared.word_eq
    | some counter =>
      rw [c.turn_nonce_of_some hcounter, ← c.shared.step_eq_serveAll]
      exact Prod.ext (congrArg (fun suffix => [suffix])
        (List.drop_left' (Bytes.length_ofWord counter))) rfl

/-- **All that happens in turns is their events**, in order. So the
turns of all clients are one row of events. -/
theorem run_eq_serveAll (c : Clients κ) (turns : List (κ × Turn)) :
    (((c.run turns).1.map (·.2.outputs)).flatten,
      (c.run turns).2.shared.succession)
        = c.shared.succession.serveAll (c.events turns).flatten := by
  induction turns generalizing c with
  | nil => rfl
  | cons first turns ih =>
    obtain ⟨client, turn⟩ := first
    simp only [run, events, List.map_cons, List.flatten_cons,
      Succession.serveAll_append,
      ← turn_eq_serveAll, ← ih]

/-- The random bytes come turn by turn, one answer for each event. It is
what finds the part of a row of answers that belongs to a turn. -/
theorem lengths_run (c : Clients κ) (turns : List (κ × Turn)) :
    ((c.run turns).1.map (·.2.outputs)).map List.length
      = (c.events turns).map List.length := by
  induction turns generalizing c with
  | nil => rfl
  | cons first turns ih =>
    obtain ⟨client, turn⟩ := first
    have hturn : (c.turn client turn).1.outputs.length
      = (c.eventsOf client turn).length := by
      rw [← Succession.length_serveAll, ← turn_eq_serveAll]
    exact List.cons_eq_cons.mpr ⟨hturn, ih _⟩

/-- Under one guard, nothing happens between its calls. They stand
together in the row, since a guard is one turn. -/
theorem getElem?_events_guarded (c : Clients κ) (turns : List (κ × Turn))
    {i : Nat} {client : κ} {calls : List SharedRng.GuardCall}
    (h : turns[i]? = some (client, .call (.guarded calls))) :
    (c.events turns)[i]? = some (calls.map SharedRng.GuardCall.event) := by
  induction turns generalizing c i with
  | nil => nomatch h
  | cons first turns ih =>
    cases i with
    | zero =>
      obtain rfl : first = (client, .call (.guarded calls)) := Option.some.inj h
      rfl
    | succ i => exact ih _ h

end Clients

/-! ## The law -/

/-- **The stream of the one generator is dealt out**, whatever any
clients do in whatever order. What happens in their turns is all that
happens to the generator, and the calls under one guard happen together.
Wherever a stretch of events keeps the stream of the generator that
there is at its beginning, the random bytes of any part of it are dealt
out of one segment of that stream, which begins behind as many words as
the events before that part have needed. -/
theorem stream_is_dealt_out {κ : Type} [DecidableEq κ] (c : Clients κ)
    (turns : List (κ × Turn)) :
    let outputs := (c.run turns).1.map (·.2.outputs)
    let events := c.events turns
    (c.run turns).2.shared.succession
      = (c.shared.succession.serveAll events.flatten).2
      ∧ outputs.map List.length = events.map List.length
      ∧ (∀ (i : Nat) (client : κ) (calls : List SharedRng.GuardCall),
        turns[i]? = some (client, .call (.guarded calls)) →
        events[i]? = some (calls.map SharedRng.GuardCall.event))
      ∧ ∀ before stretch part after : List Event,
        events.flatten = before ++ stretch ++ part ++ after →
        (∀ e ∈ stretch ++ part, e.keepsStream = true) →
        let generator := (c.shared.succession.serveAll before).2.generator
        let words :=
          segment Drbg.word generator (Event.needOfAll stretch)
            (Event.needOfAll part)
        (outputs.flatten.drop (before ++ stretch).length).take part.length
          = deal words (part.map Event.size) := by
  intro outputs events
  have hrun := c.run_eq_serveAll turns
  refine ⟨congrArg Prod.snd hrun, c.lengths_run turns,
    fun i client calls => c.getElem?_events_guarded turns, ?_⟩
  intro before stretch part after hevents hkeeps generator words
  have houtputs : outputs.flatten
      = (c.shared.succession.serveAll (before ++ stretch ++ part ++ after)).1 :=
    (congrArg Prod.fst hrun).trans (by rw [← hevents])
  -- What comes before the part only moves it back.
  have hdealt :
    (((c.shared.succession.serveAll before).2.serveAll stretch).2.serveAll
      part).1
        = deal words (part.map Event.size) :=
    Succession.serveAll_after_stretch _ hkeeps
  rw [houtputs, Succession.serveAll_append, Succession.serveAll_append,
    List.append_assoc,
    List.drop_left' (Succession.length_serveAll ..),
    List.take_left' (Succession.length_serveAll ..), Succession.serveAll_append]
  exact hdealt

/-- A session draws its counter, then another client has two draws under
a guard, and then the session goes on to its nonce. The guard has the
second to the fourth word of the generator that was made for the
counter. -/
theorem stream_is_dealt_out_to_guard :
    let host : Host := ⟨Feed.ofList [] ⟨0, 0⟩, Feed.ofList [] (.failure 5)⟩
    let c : Clients Bool :=
      ⟨SharedRng.start host, fun _ _ => NonceSequence.start 12⟩
    let guarded : List SharedRng.GuardCall := [.ask .wide, .ask (.bytes 3)]
    let turns :=
      [(false, .nonce 0), (true, .call (.guarded guarded)), (false, .nonce 0)]
    let outputs := (c.run turns).1.map (·.2.outputs)
    (c.events turns)[1]? = some (guarded.map SharedRng.GuardCall.event)
      ∧ (outputs.flatten.drop 1).take 2
        = deal (segment Drbg.word (Rng.ofSystem host).1.drbg 1 3) [8, 3] := by
  intro host c guarded turns outputs
  obtain ⟨-, -, hguard, hdealt⟩ := stream_is_dealt_out c turns
  exact ⟨hguard 1 true guarded rfl,
    hdealt [] [.ask .word] (guarded.map SharedRng.GuardCall.event)
      [.ask (.generator (.fill 8))] rfl (by decide)⟩

end Strongbox.Random
