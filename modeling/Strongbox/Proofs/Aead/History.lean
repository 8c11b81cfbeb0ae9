import Strongbox.Proofs.Aead.Session

/-!
# What a history says about a session

An onlooker who has seen every call to a session and every answer, and
nothing of its state, can tell its phase and the transcript it holds.
What counts of an exchange is its `Event`; a history is the list of
these, with the newest in front, so that it grows by one at its head and
the latest reset is the first one found.

`Phase.Follows` says which of the questions about the phase are answered
by which questions about the history, and `Phase.Follows.cons` that one
more event answers them again. `Session.Follows` adds the transcript,
and `Session.follows_history` is the whole: it holds of every session
that has been made of a key, after every list of calls.

The questions are those a caller would ask before a call:

* `History.NeverReset` – has there been any reset at all;
* `History.Opened` – did the latest one succeed;
* `History.NoneSince` – has something of a kind happened since it;
* `History.Failed` – did the latest of what can fail or mend a session
  fail.

Each is answered by looking for one event in the list, and has a lemma
of the form `…_cons` that answers it for a longer history. The phases of
a session are coarser than the history and finer than any one question,
which is why `Phase.Follows` needs five of them.

`Transcript.ofHistory` is the transcript that an onlooker can put
together: every granted reset begins a new one, and refused calls are
skipped. It is by recursion on the list, and the induction over a run
takes a step of both at once.
-/

namespace Strongbox.Aead

/-- **What an exchange means for the message.** Calls that were refused
before they reached the stream mean nothing; a transform that the stream
refused means that the message is broken off. -/
inductive Event where
  /-- A reset was granted. -/
  | opened (nonce aad : Bytes)
  /-- A reset was refused. -/
  | unopened
  /-- Associated data was taken in. -/
  | authenticated (data : Bytes)
  /-- A piece was transformed. -/
  | transformed (direction : Direction) (piece result : Bytes)
  /-- A transform was refused by the stream. -/
  | broken
  /-- A tag was written, or compared with an expected one. -/
  | closed
  /-- Nothing came of the call. -/
  | nothing
  deriving DecidableEq

/-- **The event of an exchange**, told from call and answer alone. A
comparison that failed counts as a tag that was made, like one that
succeeded. Of a buffer only the part that the transform was asked for is
looked at. -/
def Exchange.event : Exchange Session.Call Error → Event
  | ⟨.reset nonce aad, ⟨.ok _, _⟩⟩ => .opened nonce aad
  | ⟨.reset _ _, ⟨.error _, _⟩⟩ => .unopened
  | ⟨.authenticate data, ⟨.ok _, _⟩⟩ => .authenticated data
  | ⟨.transform direction input _, ⟨.ok _, buffer⟩⟩ =>
    .transformed direction input (buffer.take input.length)
  | ⟨.transformInPlace direction piece length, ⟨.ok _, buffer⟩⟩ =>
    .transformed direction (piece.take length) (buffer.take length)
  | ⟨.transform _ _ _, ⟨.error (.stream _ _), _⟩⟩ => .broken
  | ⟨.transformInPlace _ _ _, ⟨.error (.stream _ _), _⟩⟩ => .broken
  | ⟨.tag _, ⟨.ok _, _⟩⟩ => .closed
  | ⟨.verify _, ⟨.ok _, _⟩⟩ => .closed
  | ⟨.verify _, ⟨.error .authenticationFailed, _⟩⟩ => .closed
  | _ => .nothing

namespace Event

/-- Whether a reset was called, granted or not: either ends what was
under way. -/
def isReset : Event → Bool
  | opened _ _ | unopened => true
  | _ => false

/-- Whether the stream refused a transform, which faults the session
until the next reset. -/
def isBroken : Event → Bool
  | broken => true
  | _ => false

/-- Whether a transform reached the stream, to be granted or refused by
it. After one that did, no associated data is taken. -/
def reachesStream : Event → Bool
  | transformed _ _ _ | broken => true
  | _ => false

/-- Whether a tag operation was completed: a tag written, or one
compared, with either result. -/
def isClosed : Event → Bool
  | closed => true
  | _ => false

/-- Whether an event may come in a phase. Resets and calls that nothing
comes of may come in any. -/
def allowed (p : Phase) : Event → Bool
  | authenticated _ => p = .reset
  | transformed _ _ _ | broken => p.takesTransform
  | closed => p.inMessage
  | _ => true

end Event

/-- **The phase after an event.** It does not depend on what is in the
event, nor on the phase before, where the event has a bearing at all. -/
def Phase.next (p : Phase) : Event → Phase
  | .opened _ _ => .reset
  | .unopened | .broken => .faulted
  | .transformed _ _ _ => .transforming
  | .closed => .tagExtracted
  | .authenticated _ | .nothing => p

/-! ## Questions about a history -/

namespace History

/-- A reset has never been called, not even one that was refused. Until
then a session stands as it was constructed. -/
def NeverReset (past : List Event) : Prop := past.find? Event.isReset = none

/-- The latest reset was granted. Of earlier ones nothing is asked,
since a reset mends everything. -/
def Opened (past : List Event) : Prop :=
  ∃ nonce aad, past.find? Event.isReset = some (.opened nonce aad)

/-- Nothing of a kind has happened since the latest reset. The newest
event is in front, so these are the events before the first reset in the
list. -/
def NoneSince (kind : Event → Bool) (past : List Event) : Prop :=
  ∀ e ∈ past.takeWhile (fun e => !e.isReset), kind e = false

/-- The latest of all resets and of all transforms that the stream
refused was a failure. A transform that was granted in between cannot
have come, since a failed session grants none. -/
def Failed (past : List Event) : Prop :=
  past.find? (fun e => e.isReset || e.isBroken) = some .unopened
    ∨ past.find? (fun e => e.isReset || e.isBroken) = some .broken

variable {e : Event} {past : List Event} {kind : Event → Bool}

/-- A longer history has no reset if it begins with none and goes on
without one. -/
@[simp] theorem neverReset_cons :
    NeverReset (e :: past) ↔ e.isReset = false ∧ NeverReset past := by
  unfold NeverReset
  cases he : e.isReset <;> simp [he]

/-- The latest reset is the first event, if it is one, and else that of
the history before. -/
@[simp] theorem opened_cons : Opened (e :: past)
    ↔ (∃ nonce aad, e = .opened nonce aad)
      ∨ e.isReset = false ∧ Opened past := by
  unfold Opened
  cases e <;> simp [Event.isReset]

/-- A reset in front leaves nothing since; any other event must not be
of the kind, nor any since the reset before. -/
@[simp] theorem noneSince_cons : NoneSince kind (e :: past)
    ↔ e.isReset = true ∨ kind e = false ∧ NoneSince kind past := by
  unfold NoneSince
  cases he : e.isReset <;> simp [he]

/-- A failure in front is the latest one; an event that neither fails
nor mends leaves the question to the history before. -/
@[simp] theorem failed_cons : Failed (e :: past)
    ↔ (e = .unopened ∨ e = .broken)
      ∨ (e.isReset || e.isBroken) = false ∧ Failed past := by
  unfold Failed
  cases e <;> simp [Event.isReset, Event.isBroken]

end History

open History

/-- **The phase and the history agree**: five questions about the phase,
and what the history must be for each to be answered with yes. -/
structure Phase.Follows (p : Phase) (past : List Event) : Prop where
  /-- Before the first reset. -/
  constructed : p = .constructed ↔ NeverReset past
  /-- After a failure. -/
  faulted : p = .faulted ↔ Failed past
  /-- Between a reset and a failure. -/
  inMessage : p.inMessage = true ↔ Opened past ∧ NoneSince Event.isBroken past
  /-- Between a reset and a failure or a tag. -/
  takesTransform : p.takesTransform = true
    ↔ Opened past ∧ NoneSince Event.isBroken past
      ∧ NoneSince Event.isClosed past
  /-- Between a reset and the first transform that reaches the stream,
  or a tag. -/
  reset : p = .reset
    ↔ Opened past ∧ NoneSince Event.reachesStream past
      ∧ NoneSince Event.isClosed past

/-- A phase of a message is neither of the two in which there is none.
Those two are what the refusals for want of a message are about. -/
theorem Phase.ne_of_inMessage {p : Phase} (h : p.inMessage = true) :
    p ≠ .constructed ∧ p ≠ .faulted := by
  cases p <;> first | exact Bool.noConfusion h | exact ⟨nofun, nofun⟩

/-- A session of which nothing has been asked is in the phase that it
was made in, and its history is empty. -/
theorem Phase.Follows.constructed_nil : Phase.constructed.Follows [] := by
  constructor <;>
    simp [NeverReset, Failed, Opened, Phase.inMessage, Phase.takesTransform]

/-- **One more event.** The cases are those of the event: a reset
answers every question anew, and what may come only in some phases
leaves the other phases behind. A call that nothing came of leaves all
the answers as they were. -/
theorem Phase.Follows.cons {p : Phase} {past : List Event} (h : p.Follows past)
    {e : Event} (he : e.allowed p = true) : (p.next e).Follows (e :: past) := by
  cases e with
  | opened nonce aad =>
    constructor <;>
      simp [Phase.next, Phase.inMessage, Phase.takesTransform, Event.isReset]
  | unopened =>
    constructor <;>
      simp [Phase.next, Phase.inMessage, Phase.takesTransform, Event.isReset]
  | authenticated data | nothing =>
    show p.Follows _
    constructor
    · simpa [Event.isReset] using h.constructed
    · simpa [Event.isReset, Event.isBroken] using h.faulted
    · simpa [Event.isReset, Event.isBroken] using h.inMessage
    · simpa [Event.isReset, Event.isBroken, Event.isClosed]
        using h.takesTransform
    · simpa [Event.isReset, Event.reachesStream, Event.isClosed] using h.reset
  | transformed direction piece result =>
    have htakes : p.takesTransform = true := he
    obtain ⟨hopened, hbroken, hclosed⟩ := h.takesTransform.mp htakes
    obtain ⟨hc, hf⟩ := ne_of_inMessage (inMessage_of_takesTransform htakes)
    constructor
    · simpa [next, Event.isReset, ← h.constructed] using hc
    · simpa [next, Event.isReset, Event.isBroken, ← h.faulted] using hf
    · simp [next, Phase.inMessage, Event.isReset, Event.isBroken, hopened,
        hbroken]
    · simp [next, Phase.takesTransform, Event.isReset, Event.isBroken,
        Event.isClosed, hopened,
        hbroken, hclosed]
    · simp [next, Event.isReset, Event.reachesStream]
  | broken =>
    obtain ⟨hc, -⟩ := ne_of_inMessage (inMessage_of_takesTransform he)
    constructor
    · simpa [next, Event.isReset, ← h.constructed] using hc
    · simp [next]
    · simp [next, Phase.inMessage, Event.isReset, Event.isBroken]
    · simp [next, Phase.takesTransform, Event.isReset, Event.isBroken]
    · simp [next, Event.isReset, Event.reachesStream]
  | closed =>
    have hin : p.inMessage = true := he
    obtain ⟨hopened, hbroken⟩ := h.inMessage.mp hin
    obtain ⟨hc, hf⟩ := ne_of_inMessage hin
    constructor
    · simpa [next, Event.isReset, ← h.constructed] using hc
    · simpa [next, Event.isReset, Event.isBroken, ← h.faulted] using hf
    · simp [next, Phase.inMessage, Event.isReset, Event.isBroken, hopened,
        hbroken]
    · simp [next, Phase.takesTransform, Event.isReset, Event.isClosed]
    · simp [next, Event.isReset, Event.isClosed]

/-! ## The transcript of a history -/

/-- The transcript after an event. A failure leaves it as it was:
nothing can be added to it until it is begun anew. -/
def Transcript.next (t : Transcript) : Event → Transcript
  | .opened nonce aad => (start nonce).authenticate aad
  | .authenticated data => t.authenticate data
  | .transformed direction piece result => t.transform direction piece result
  | .unopened | .broken | .closed | .nothing => t

/-- **What has been given since the latest reset.** Before the first
reset this is an empty transcript with no nonce, which no session holds. -/
def Transcript.ofHistory : List Event → Transcript
  | [] => start []
  | e :: past => (ofHistory past).next e

namespace Session

/-- **The history of a session** under a list of calls, newest first:
the events of its exchanges, as an onlooker has seen them. -/
def history (s : Session) (calls : List Call) : List Event :=
  ((record step s calls).map Exchange.event).reverse

/-- A history begins with the event of the first call, which stands at
the end of the list because the newest stands in front. -/
theorem history_cons (s : Session) (call : Call) (calls : List Call) :
    s.history (call :: calls)
      = (s.step call).2.history calls
        ++ [Exchange.event ⟨call, (s.step call).1⟩] :=
  List.reverse_cons

variable {cipher : BlockCipher} {tagLength : Nat} {mode : Mode}
  {past : List Event} {s : Session}

/-- **A session and its history agree.** It is the invariant of this
module: what it says of the session in the middle of a message is
everything, and outside a message only its key and its phase. -/
structure Follows (cipher : BlockCipher) (tagLength : Nat) (mode : Mode)
    (past : List Event) (s : Session) : Prop where
  /-- The session belongs to its key. -/
  keyed : Stream.Keyed cipher tagLength mode s.stream
  /-- The phase answers the questions about the history. -/
  phase : s.phase.Follows past
  /-- In a message the session holds what has been given. -/
  holds : s.phase.inMessage = true →
    Holds cipher tagLength mode (Transcript.ofHistory past) s

/-- **One more event**, when it may come and the session does what it
says. What a call does is shown of the session; what it means for the
questions is taken from `Phase.Follows.cons`. -/
theorem Follows.cons (h : Follows cipher tagLength mode past s) {s' : Session}
    {e : Event} (hkeyed : Stream.Keyed cipher tagLength mode s'.stream)
    (hallowed : e.allowed s.phase = true) (hphase : s'.phase = s.phase.next e)
    (hholds : s'.phase.inMessage = true
        → Holds cipher tagLength mode ((Transcript.ofHistory past).next e) s') :
    Follows cipher tagLength mode (e :: past) s' :=
  ⟨hkeyed, hphase ▸ h.phase.cons hallowed, hholds⟩

/-- A call that nothing comes of changes nothing: the session is the
same, and the event in front of its history answers no question anew. -/
theorem Follows.cons_nothing (h : Follows cipher tagLength mode past s) :
    Follows cipher tagLength mode (.nothing :: past) s :=
  h.cons h.keyed rfl rfl h.holds

/-! ## One call -/

/-- In counter with CBC-MAC mode no associated data comes after the
reset. -/
theorem step_authenticate_ccm (h : Stream.Keyed cipher tagLength .ccm s.stream)
    (data : Bytes) :
    s.step (.authenticate data)
      = (⟨.error (.unsupported "aad" .ccm), []⟩, s) := by
  have hmode : s.mode = .ccm := h.mode_eq
  simp only [step, authenticate, if_pos hmode]

/-- Associated data is refused in every phase but one, with no trace of
it in the session. Which refusal it is does not matter for the history. -/
theorem step_authenticate_of_ne_reset (hphase : s.phase ≠ .reset)
    (data : Bytes) :
    ∃ e, s.step (.authenticate data) = (⟨.error e, []⟩, s) := by
  by_cases hmode : s.mode = .ccm
  · exact ⟨_, by simp only [step, authenticate, if_pos hmode]; rfl⟩
  · simp only [step, authenticate, if_neg hmode]
    cases hp : s.phase with
    | reset => exact absurd hp hphase
    | constructed | faulted | transforming | tagExtracted => exact ⟨_, rfl⟩

/-- What comes of a transform that does not reach the stream: nothing.
The objections are the session's own, and the event tells them from the
stream's refusals by their form. -/
theorem event_objection {call : Call} {task : Task}
    (hc : call.task? = some task) {e : Error}
    (he : s.objection? task.length task.buffer.length = some e)
    (buffer : Bytes) :
    Exchange.event ⟨call, ⟨.error e, buffer⟩⟩ = .nothing := by
  cases call with
  | transform | transformInPlace =>
    obtain ⟨-, rfl⟩ | ⟨-, rfl⟩ | rfl | rfl | rfl := objection?_cases he <;> rfl
  | _ => cases hc

/-- A transform, in either form, leaves the session in agreement with
its history: stopped before the stream, refused by it, or granted. -/
theorem Follows.step_task (h : Follows cipher tagLength mode past s)
    {call : Call} {task : Task} (hc : call.task? = some task) :
    Follows cipher tagLength mode
      (Exchange.event ⟨call, (s.step call).1⟩ :: past)
      (s.step call).2 := by
  rw [Session.step_task s hc]
  cases ho : s.objection? task.length task.buffer.length with
  | some e =>
    show Follows _ _ _ (Exchange.event ⟨call, ⟨.error e, task.buffer⟩⟩ :: past)
      s
    rw [event_objection hc ho]
    exact h.cons_nothing
  | none =>
    obtain ⟨htakes, hfits⟩ := objection?_eq_none_iff.mp ho
    have hheld := h.holds (Phase.inMessage_of_takesTransform htakes)
    show Follows _ _ _
      (Exchange.event ⟨call, (s.transformStart _ _ _).1⟩ :: past)
      (s.transformStart _ _ _).2
    cases hr : (Transcript.ofHistory past).messageRefusal? mode
        task.piece.length with
    | some e =>
      rw [hheld.transformStart_refused task.direction _ hr]
      have hevent :
        Exchange.event ⟨call, ⟨.error (.stream task.direction.name e),
          task.piece ++ task.buffer.drop task.length⟩⟩ = .broken := by
        cases call <;> cases hc <;> rfl
      rw [hevent]
      exact h.cons h.keyed htakes rfl nofun
    | none =>
      obtain ⟨stream, hstart, hnew⟩ :=
        hheld.transformStart_granted task.direction
          (task.buffer.drop task.length) hr
      rw [hstart]
      have hevent : Exchange.event ⟨call, ⟨.ok (),
          (Transcript.ofHistory past).crypt mode cipher.encrypt task.piece
            ++ task.buffer.drop task.length⟩⟩
          = .transformed task.direction task.piece
              ((Transcript.ofHistory past).crypt mode cipher.encrypt
                  task.piece) := by
        have htake :
          ((Transcript.ofHistory past).crypt mode cipher.encrypt task.piece
            ++ task.buffer.drop task.length).take task.length
              = (Transcript.ofHistory past).crypt mode cipher.encrypt
                task.piece :=
          List.take_left'
            (by rw [Transcript.length_crypt, length_piece hc hfits])
        cases call <;> cases hc <;> exact congrArg (Event.transformed _ _) htake
      rw [hevent]
      exact h.cons hnew.stream.keyed htakes rfl (fun _ => hnew)

/-- More associated data leaves the session in agreement with its
history: impossible in one mode, and in the other refused by the phase,
refused by the stream, or granted. -/
theorem Follows.step_authenticate (h : Follows cipher tagLength mode past s)
    (data : Bytes) :
    Follows cipher tagLength mode
      (Exchange.event ⟨.authenticate data, (s.step (.authenticate data)).1⟩
          :: past)
      (s.step (.authenticate data)).2 := by
  by_cases hphase : s.phase = .reset
  · cases mode with
    | ccm =>
      rw [step_authenticate_ccm h.keyed]
      exact h.cons_nothing
    | gcm =>
      have hheld := h.holds (by rw [hphase]; rfl)
      cases hr : (Transcript.ofHistory past).aadRefusal? .gcm data.length with
      | some e =>
        rw [hheld.step_authenticate_refused hphase hr]
        exact h.cons_nothing
      | none =>
        obtain ⟨stream, hstep, hnew⟩ :=
          hheld.step_authenticate_granted hphase hr
        rw [hstep]
        exact h.cons hnew.stream.keyed (decide_eq_true hphase) hphase.symm
          (fun _ => hnew)
  · obtain ⟨e, hstep⟩ := step_authenticate_of_ne_reset hphase data
    rw [hstep]
    exact h.cons_nothing

/-- **A tag is written in a message and nowhere else.** In every other
case there is an error that is no failed comparison, and the session is
as before. -/
theorem Follows.tag_cases (h : Follows cipher tagLength mode past s) (n : Nat) :
    (s.phase.inMessage = true ∧ mode.TakesTag tagLength n
        ∧ ∃ tag, s.tag n = (⟨.ok (), tag⟩, { s with phase := .tagExtracted }))
      ∨ (¬(s.phase.inMessage = true ∧ mode.TakesTag tagLength n)
        ∧ ∃ e, e ≠ .authenticationFailed
          ∧ s.tag n = (⟨.error e, Bytes.zeros n⟩, s)) := by
  cases hphase : s.phase with
  | constructed =>
    exact .inr
      ⟨fun hin => Bool.noConfusion hin.1, .notReset, nofun, by rw [tag, hphase]⟩
  | faulted =>
    exact .inr
      ⟨fun hin => Bool.noConfusion hin.1, .faulted, nofun, by rw [tag, hphase]⟩
  | reset | transforming | tagExtracted =>
    have hheld := h.holds (by rw [hphase]; rfl)
    by_cases hn : mode.TakesTag tagLength n
    · exact .inl ⟨rfl, hn, _, by rw [hheld.tag_eq, if_pos hn]⟩
    · exact .inr
        ⟨fun hin => hn hin.2, .tagLength n, nofun,
          by rw [hheld.tag_eq, if_neg hn]⟩

/-- **A session goes on agreeing with its history**, whatever the call
is. Resets and tags are handled here, the other calls by the lemmas
above. -/
theorem Follows.step (h : Follows cipher tagLength mode past s) (call : Call) :
    Follows cipher tagLength mode
      (Exchange.event ⟨call, (s.step call).1⟩ :: past)
      (s.step call).2 := by
  cases call with
  | reset nonce aad =>
    cases hr : mode.openingRefusal? nonce aad.length with
    | some e =>
      rw [step_reset_refused h.keyed hr]
      exact h.cons h.keyed rfl rfl nofun
    | none =>
      obtain ⟨stream, hstep, hnew⟩ := step_reset_granted h.keyed hr
      rw [hstep]
      exact h.cons hnew.stream.keyed rfl rfl (fun _ => hnew)
  | authenticate data => exact h.step_authenticate data
  | transform direction input output => exact h.step_task rfl
  | transformInPlace direction buffer length => exact h.step_task rfl
  | tag buffer =>
    show Follows _ _ _ (Exchange.event ⟨_, (s.tag buffer.length).1⟩ :: past)
      (s.tag buffer.length).2
    obtain ⟨hin, -, tag, htag⟩ | ⟨-, e, -, htag⟩ := h.tag_cases buffer.length
    · rw [htag]
      exact h.cons h.keyed hin rfl (fun _ => (h.holds hin).tagExtracted)
    · rw [htag]
      exact h.cons_nothing
  | verify expected =>
    rw [step_verify]
    obtain ⟨hin, -, tag, htag⟩ | ⟨-, e, he, htag⟩ := h.tag_cases expected.length
    · -- Whether the bytes agree makes no difference to what has happened.
      rw [htag]
      have hevent :
        Exchange.event ⟨.verify expected, ⟨if tag = expected then .ok ()
          else .error .authenticationFailed, []⟩⟩ = .closed := by
        split <;> rfl
      show Follows _ _ _
        (Exchange.event ⟨_, ⟨if tag = expected then _ else _, _⟩⟩ :: past) _
      rw [hevent]
      exact h.cons h.keyed hin rfl (fun _ => (h.holds hin).tagExtracted)
    · rw [htag]
      have hevent : Exchange.event ⟨.verify expected, ⟨.error e, []⟩⟩
        = .nothing := by
        cases e <;> first | rfl | exact absurd rfl he
      show Follows _ _ _ (Exchange.event ⟨_, ⟨.error e, _⟩⟩ :: past) s
      rw [hevent]
      exact h.cons_nothing

/-- A session goes on agreeing with its history through any list of
calls, by induction on the list. -/
theorem Follows.after (h : Follows cipher tagLength mode past s)
    (calls : List Call) :
    Follows cipher tagLength mode (s.history calls ++ past)
      (after Session.step s calls) := by
  induction calls generalizing past s with
  | nil => exact h
  | cons call calls ih =>
    rw [history_cons, List.append_assoc]
    exact ih (h.step call)

/-- **A session that was made of a key agrees with its history**, after
every list of calls. Everything that is said of sessions by looking at
their calls alone rests on this. -/
theorem follows_history {key : Bytes} (hs : ofKey mode key tagLength = .ok s)
    (calls : List Call) :
    ∃ cipher, Follows cipher tagLength mode (s.history calls)
      (Aead.after Session.step s calls) := by
  obtain ⟨cipher, hkeyed, hphase⟩ := of_ofKey hs
  have hfresh : Follows cipher tagLength mode [] s :=
    ⟨hkeyed, hphase ▸ .constructed_nil, by rw [hphase]; exact nofun⟩
  exact ⟨cipher, by simpa using hfresh.after calls⟩

end Session

end Strongbox.Aead
