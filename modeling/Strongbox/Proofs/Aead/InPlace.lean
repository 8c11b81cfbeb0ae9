import Strongbox.Proofs.Aead.Packed
import Strongbox.Proofs.Aead.Protocol
import Strongbox.Proofs.Aead.Refused

/-!
# From one buffer to another, or in place

A transform can be asked for in two forms. In one the input stands in a
buffer of its own and is written into the start of another; in the other
it stands there already. `TransformsAgree` says that this is all the
difference: with the input copied first, the second form gives the same
answer, leaves the same bytes, and leaves the session in the same state.
It also says what either of them does to the buffer it writes. Bytes
behind the piece stay. A call that is objected to, for the time at which
it comes or for the sizes of its buffers, has not been made at all. A
call that the stream refuses leaves the piece where it was to be
transformed, and ends the message: nothing is granted any more until a
reset is (`FailsUntilReset`).

The laws are stated over any way of answering the calls of a session,
and shown of two: of a `Session`, and of a `PackedSession`, where the
copying is done in memory and before the stream has been asked. What the
two have in common is `TransformsBy`, an objection or else a start on
the buffer that the piece stands in, and the laws are read off that.

* `TransformsBy.cases` inverts a transform: an objection that leaves
  everything, or what comes of a start. Every law but one follows from
  it by cases.
* `FailsUntilReset.of_invariant` reduces the last law, which is about
  all histories after a failure, to an invariant of one state.
* `Session.transformsBy` and `PackedSession.transformsBy` show that both
  sessions answer so. For the one in memory this is where the bounds of
  the buffer come in.
-/

namespace Strongbox.Aead

open Checked

/-- **Whether a refusal is an objection** to a transform, which comes
before the stream is asked. The other refusals of a transform have a
cause in the stream. -/
def Error.isObjection : Error → Bool
  | notReset | faulted | tagExtracted | emptyInput | insufficientCapacity _ _ =>
    true
  | _ => false

namespace Session

/-- Whether a call begins a message, or attempts to. A failed session is
mended by nothing else. -/
def Call.isReset : Call → Bool
  | reset _ _ => true
  | _ => false

/-- **The buffer with the piece at its start**, where a transform in
place finds it. -/
def Task.primed (task : Task) : Bytes :=
  task.piece ++ task.buffer.drop task.length

/-- In place the buffer is as it should be from the start: its first
bytes are the piece, and the rest stands behind them. -/
theorem Task.primed_inPlace (direction : Direction) (buffer : Bytes)
    (length : Nat) :
    primed ⟨direction, length, buffer.take length, buffer⟩ = buffer :=
  List.take_append_drop ..

end Session

open Session (Call Task)

/-! ## The laws -/

section Laws

variable {σ : Type} (step : σ → Call → Checked (Reply Error × σ))

/-- **What a state leads to**, by calls that all end well, with the
record of them. -/
inductive Leads : σ → List (Exchange Call Error) → σ → Prop
  /-- No call. -/
  | nil (s : σ) : Leads s [] s
  /-- One call and what comes after it. -/
  | cons {s s' s'' : σ} {call : Call} {reply : Reply Error}
    {record : List (Exchange Call Error)}
    (hstep : step s call = .ok (reply, s')) (h : Leads s' record s'') :
    Leads s (⟨call, reply⟩ :: record) s''

/-- **Every call fails until a reset is granted.** It is said of all
histories that a state leads to in which no reset is, and of each call
in them. -/
def FailsUntilReset (s : σ) : Prop :=
  ∀ record s', Leads step s record s' →
    (∀ e ∈ record, e.call.isReset = true → e.succeeded = false) →
    ∀ e ∈ record, e.succeeded = false

/-- **The laws of a transform** in a state: the two forms agree, and
each of them keeps to its part of the buffer and to the protocol. -/
structure TransformsAgree (s : σ) : Prop where
  /-- From one buffer to another, or in place after a copy: both are
  objected to, and leave what they were handed, or there is no
  difference. -/
  agree (direction : Direction) {input output : Bytes}
    (hroom : input.length ≤ output.length) :
    (∃ e, e.isObjection = true
      ∧ step s (.transform direction input output) = .ok (⟨.error e, output⟩, s)
      ∧ step s (.transformInPlace direction (Bytes.overwrite input output)
          input.length)
        = .ok (⟨.error e, Bytes.overwrite input output⟩, s))
    ∨ step s (.transformInPlace direction (Bytes.overwrite input output)
        input.length)
          = step s (.transform direction input output)
  /-- Bytes behind the piece stay. -/
  frame {call : Call} {task : Task} (hc : call.task? = some task)
    {answer : Reply Error × σ}
    (ha : step s call = .ok answer) :
    answer.1.buffer.drop task.length = task.buffer.drop task.length
  /-- An objection leaves the buffer and the session. -/
  objection {call : Call} {task : Task} (hc : call.task? = some task)
    {answer : Reply Error × σ} (ha : step s call = .ok answer) {e : Error}
    (he : answer.1.outcome = .error e) (hobjection : e.isObjection = true) :
    answer = (⟨.error e, task.buffer⟩, s)
  /-- Any other refusal is the stream's. It leaves the piece at the
  start of the buffer, and nothing is granted until a reset is. -/
  broken {call : Call} {task : Task} (hc : call.task? = some task)
    {answer : Reply Error × σ}
    (ha : step s call = .ok answer) {e : Error}
      (he : answer.1.outcome = .error e)
    (hobjection : e.isObjection = false) :
    (∃ cause, e = .stream task.direction.name cause)
      ∧ answer.1.buffer = task.primed
      ∧ FailsUntilReset step answer.2

/-- **What comes of a start** on the first bytes of a buffer. There are
two possibilities, and neither changes the length of the buffer or the
bytes behind the piece. -/
inductive Started (direction : Direction) (buffer : Bytes) (length : Nat) :
    Reply Error × σ → Prop
  /-- The stream refuses them. -/
  | broken (cause : StreamError) {s' : σ} (hs' : FailsUntilReset step s') :
    Started direction buffer length
      (⟨.error (.stream direction.name cause), buffer⟩, s')
  /-- They are transformed. -/
  | granted {result : Bytes} {s' : σ} (hlength : result.length = length) :
    Started direction buffer length (⟨.ok (), result ++ buffer.drop length⟩, s')

/-- **A way of answering transforms** in a state: by an objection, or
else by a start on the buffer that the piece stands in. -/
structure TransformsBy (objection? : (length capacity : Nat) → Option Error)
    (start : Direction → (buffer : Bytes) → (length : Nat)
        → Checked (Reply Error × σ))
    (s : σ) :
    Prop where
  /-- Both forms are answered so. -/
  step_eq {call : Call} {task : Task} (hc : call.task? = some task) :
    step s call = match objection? task.length task.buffer.length with
      | some e => .ok (⟨.error e, task.buffer⟩, s)
      | none => start task.direction task.primed task.length
  /-- What is objected is an objection. -/
  isObjection {length capacity : Nat} {e : Error}
    (he : objection? length capacity = some e) :
    e.isObjection = true
  /-- What is not objected to fits. -/
  fits {task : Task} (h : objection? task.length task.buffer.length = none) :
    task.Fits
  /-- A start comes to nothing else. -/
  started (direction : Direction) {buffer : Bytes} {length : Nat}
    (hlength : length ≤ buffer.length) :
    Ensures (Started step direction buffer length)
      (start direction buffer length)

variable {step} {s : σ} {objection? : (length capacity : Nat) → Option Error}
  {start : Direction → (buffer : Bytes) → (length : Nat)
      → Checked (Reply Error × σ)}

/-- **What can come of a transform**, an objection or what comes of a
start. -/
theorem TransformsBy.cases (h : TransformsBy step objection? start s)
    {call : Call} {task : Task} (hc : call.task? = some task)
    {answer : Reply Error × σ} (ha : step s call = .ok answer) :
    (∃ e, e.isObjection = true ∧ answer = (⟨.error e, task.buffer⟩, s))
      ∨ task.piece.length = task.length
        ∧ Started step task.direction task.primed task.length answer := by
  rw [h.step_eq hc] at ha
  cases ho : objection? task.length task.buffer.length with
  | some e =>
    rw [ho] at ha
    exact .inl ⟨e, h.isObjection ho, (Except.ok.inj ha).symm⟩
  | none =>
    rw [ho] at ha
    have hpiece := Session.length_piece hc (h.fits ho)
    refine .inr ⟨hpiece, h.started task.direction ?_ answer ha⟩
    rw [Task.primed, List.length_append, hpiece]
    exact Nat.le_add_right ..

/-- **The laws hold** where transforms are answered so. A copy that fits
makes one form of the other, because a start finds the same buffer. -/
theorem TransformsBy.transformsAgree
    (h : TransformsBy step objection? start s) :
    TransformsAgree step s where
  agree direction input output hroom := by
    let copied := Bytes.overwrite input output
    let apart : Task := ⟨direction, input.length, input, output⟩
    let inPlace : Task :=
      ⟨direction, input.length, copied.take input.length, copied⟩
    have hapart := h.step_eq
      (show (Call.transform direction input output).task? = some apart from rfl)
    have hinPlace := h.step_eq
      (show (Call.transformInPlace direction copied input.length).task?
          = some inPlace from rfl)
    have hprimed : inPlace.primed = apart.primed :=
      calc inPlace.primed
          = copied := Task.primed_inPlace ..
        _ = apart.primed := Bytes.overwrite_of_le_length hroom
    have hcapacity : inPlace.buffer.length = apart.buffer.length :=
      Bytes.length_overwrite ..
    rw [hprimed, hcapacity] at hinPlace
    cases ho : objection? apart.length apart.buffer.length with
    | some e =>
      rw [ho] at hapart
      rw [show objection? inPlace.length apart.buffer.length = some e from ho]
        at hinPlace
      exact .inl ⟨e, h.isObjection ho, hapart, hinPlace⟩
    | none =>
      rw [ho] at hapart
      rw [show objection? inPlace.length apart.buffer.length = none from ho]
        at hinPlace
      exact .inr (hinPlace.trans hapart.symm)
  frame {call task} hc _ ha := by
    obtain ⟨e, -, rfl⟩ | ⟨hpiece, hstarted⟩ := h.cases hc ha
    · rfl
    · have hrest : task.primed.drop task.length
        = task.buffer.drop task.length :=
        List.drop_left' hpiece
      cases hstarted with
      | broken cause hs' => exact hrest
      | granted hlength => exact (List.drop_left' hlength).trans hrest
  objection hc _ ha _ he hobjection := by
    obtain ⟨e, -, rfl⟩ | ⟨-, hstarted⟩ := h.cases hc ha
    · cases he
      rfl
    · cases hstarted with
      | broken => cases he; exact Bool.noConfusion hobjection
      | granted => cases he
  broken hc _ ha _ he hobjection := by
    obtain ⟨e, hobjected, rfl⟩ | ⟨-, hstarted⟩ := h.cases hc ha
    · cases he
      exact Bool.noConfusion (hobjection.symm.trans hobjected)
    · cases hstarted with
      | broken cause hs' => cases he; exact ⟨⟨cause, rfl⟩, rfl, hs'⟩
      | granted => cases he

/-- **A kind of state that only a reset leads out of**, and that grants
nothing else. -/
theorem FailsUntilReset.of_invariant (P : σ → Prop)
    (hP : ∀ {s : σ} {call : Call} {reply : Reply Error} {s' : σ}, P s
        → step s call = .ok (reply, s')
        → (call.isReset = true ∧ reply.outcome = .ok ())
        ∨ ((∃ e, reply.outcome = .error e) ∧ P s'))
    (hs : P s) : FailsUntilReset step s := by
  intro record s' h
  induction h with
  | nil => exact fun _ => nofun
  | cons hstep _ ih =>
    intro hresets
    obtain ⟨hreset, hok⟩ | ⟨⟨e, he⟩, hnext⟩ := hP hs hstep
    · -- The record has no reset that was granted.
      have hfailed := hresets _ (List.mem_cons_self ..) hreset
      rw [Exchange.succeeded, hok] at hfailed
      exact Bool.noConfusion hfailed
    · have hrest :=
        ih hnext fun e hmem => hresets e (List.mem_cons_of_mem _ hmem)
      refine List.forall_mem_cons.mpr ⟨?_, hrest⟩
      rw [Exchange.succeeded, he]
      rfl

end Laws

/-! ## Sessions -/

namespace Session

variable {s : Session}

/-- The answer of a session to a call, which there always is. It is
written as a result that could fault, so that the laws can be stated of
it. -/
def answer (s : Session) (call : Call) : Checked (Reply Error × Session) :=
  .ok (s.step call)

/-- After a failure every call but a reset is refused, and changes
nothing. The phase is the first thing that each of them looks at. -/
theorem step_of_faulted (hphase : s.phase = .faulted) {call : Call}
    (hc : call.isReset = false) :
    ∃ e buffer, s.step call = (⟨.error e, buffer⟩, s) := by
  have hrefused (hneeds : call.needsMessage s.mode = true) :
      ∃ e buffer, s.step call = (⟨.error e, buffer⟩, s) :=
    ⟨.faulted, step_eq_error (.inr ⟨hphase, rfl⟩) hneeds⟩
  cases call with
  | reset => exact Bool.noConfusion hc
  | authenticate data =>
    obtain ⟨e, hstep⟩ :=
      step_authenticate_of_ne_reset (hphase.trans_ne (by decide)) data
    exact ⟨e, [], hstep⟩
  | transform | transformInPlace | tag | verify => exact hrefused rfl

/-- **A failure lasts until a reset is granted**, since no other call
changes a failed session and a reset that is refused leaves it failed. -/
theorem failsUntilReset_of_faulted (hphase : s.phase = .faulted) :
    FailsUntilReset answer s := by
  refine .of_invariant (fun s => s.phase = .faulted) ?_ hphase
  intro s call reply s' hphase hstep
  have hstep : s.step call = (reply, s') := Except.ok.inj hstep
  cases hc : call.isReset with
  | false =>
    obtain ⟨e, buffer, hrefused⟩ := step_of_faulted hphase hc
    cases hstep.symm.trans hrefused
    exact .inr ⟨⟨e, rfl⟩, hphase⟩
  | true =>
    cases call with
    | reset nonce aad =>
      simp only [step, reset] at hstep
      cases hstart : startMessage s.stream nonce aad with
      | ok stream =>
        rw [hstart] at hstep
        cases hstep
        exact .inl ⟨rfl, rfl⟩
      | error cause =>
        rw [hstart] at hstep
        cases hstep
        exact .inr ⟨⟨_, rfl⟩, rfl⟩
    | _ => exact Bool.noConfusion hc

/-- **A session answers transforms** by its objections, or else by the
start that both forms have in common. -/
theorem transformsBy (s : Session) : TransformsBy answer s.objection?
    (fun direction buffer length =>
      .ok (s.transformStart direction (buffer.take length)
          (buffer.drop length))) s where
  step_eq {call task} hc := by
    unfold answer
    rw [step_task s hc]
    cases ho : s.objection? task.length task.buffer.length with
    | some e => rfl
    | none =>
      have hpiece := length_piece hc (objection?_eq_none_iff.mp ho).2
      dsimp only
      rw [Task.primed, List.take_left' hpiece, List.drop_left' hpiece]
  isObjection he := by
    obtain ⟨-, rfl⟩ | ⟨-, rfl⟩ | rfl | rfl | rfl := objection?_cases he <;> rfl
  fits h := (objection?_eq_none_iff.mp h).2
  started direction {buffer length} hlength := by
    refine .ok ?_
    unfold transformStart
    cases hs : s.stream.transform direction (buffer.take length) with
    | error cause =>
      dsimp only
      rw [List.take_append_drop]
      exact .broken cause (failsUntilReset_of_faulted rfl)
    | ok out =>
      have hresult : out.1.length = length :=
        (Stream.length_of_transform hs).trans (List.length_take_of_le hlength)
      exact .granted hresult

end Session

/-! ## Sessions in memory -/

namespace PackedSession

variable {p : PackedSession}

/-- **The objections of a session in memory**, and what fits when there
is none: something to transform, and room for it. -/
theorem objection?_cases (p : PackedSession) (length capacity : Nat) :
    (∃ e, e.isObjection = true ∧ p.objection? length capacity = some e)
      ∨ p.objection? length capacity = none ∧ 0 < length
        ∧ length ≤ capacity := by
  unfold objection?
  cases p.phase with
  | constructed => exact .inl ⟨.notReset, rfl, rfl⟩
  | faulted => exact .inl ⟨.faulted, rfl, rfl⟩
  | tagExtracted => exact .inl ⟨.tagExtracted, rfl, rfl⟩
  | reset | transforming =>
    by_cases h0 : length = 0
    · exact .inl ⟨.emptyInput, rfl, if_pos h0⟩
    · by_cases hroom : capacity < length
      · exact .inl ⟨.insufficientCapacity length capacity, rfl,
          (if_neg h0).trans (if_pos hroom)⟩
      · exact .inr ⟨(if_neg h0).trans (if_neg hroom), Nat.pos_of_ne_zero h0,
          Nat.le_of_not_lt hroom⟩

/-- **Both forms of a transform are answered alike** in memory: one
finds its piece where the other puts it. -/
theorem step_task (p : PackedSession) {call : Call} {task : Task}
    (hc : call.task? = some task) :
    p.step call = match p.objection? task.length task.buffer.length with
      | some e => .ok (⟨.error e, task.buffer⟩, p)
      | none => p.transformStart task.direction task.primed task.length := by
  cases call with
  | transform direction input output =>
    cases hc
    show p.transform direction input output = _
    unfold transform
    obtain ⟨e, -, ho⟩ | ⟨ho, -, hroom⟩ :=
      p.objection?_cases input.length output.length
    · rw [ho]
      rfl
    · rw [ho]
      exact bind_eq (put_zero hroom) _
  | transformInPlace direction buffer length =>
    cases hc
    show p.transformInPlace direction buffer length = _
    unfold transformInPlace
    rw [Task.primed_inPlace]
    rfl
  | _ => cases hc

/-- After a failure a reset may be granted, and no other call is; a
reset that is refused leaves a failure behind as well. -/
theorem of_faulted (hphase : p.phase = .faulted) {call : Call}
    {reply : Reply Error} {p' : PackedSession}
    (hstep : p.step call = .ok (reply, p')) :
    (call.isReset = true ∧ reply.outcome = .ok ())
      ∨ ((∃ e, reply.outcome = .error e) ∧ p'.phase = .faulted) := by
  have htask {call : Call} {task : Task} (ht : call.task? = some task)
      (hstep : p.step call = .ok (reply, p')) :
      (∃ e, reply.outcome = .error e) ∧ p'.phase = .faulted := by
    have hobjection : p.objection? task.length task.buffer.length
      = some .faulted := by
      rw [objection?, hphase]
    rw [step_task p ht, hobjection] at hstep
    cases hstep
    exact ⟨⟨_, rfl⟩, hphase⟩
  have htag (buffer : Bytes) :
      p.tag buffer = .ok (⟨.error .faulted, Bytes.zeros buffer.length⟩, p) := by
    rw [tag, hphase]
    rfl
  cases call with
  | reset nonce aad =>
    obtain ⟨⟨outcome, stream⟩, -, hlast⟩ := exists_of_bind_eq_ok hstep
    cases outcome with
    | ok _ => cases hlast; exact .inl ⟨rfl, rfl⟩
    | error cause => cases hlast; exact .inr ⟨⟨_, rfl⟩, rfl⟩
  | authenticate data =>
    refine .inr ?_
    simp only [step, authenticate, hphase] at hstep
    split at hstep <;> cases hstep <;> exact ⟨⟨_, rfl⟩, hphase⟩
  | transform direction input output => exact .inr (htask rfl hstep)
  | transformInPlace direction buffer length => exact .inr (htask rfl hstep)
  | tag buffer =>
    cases (htag buffer).symm.trans hstep
    exact .inr ⟨⟨_, rfl⟩, hphase⟩
  | verify expected =>
    obtain ⟨computed, -, hrest⟩ := exists_of_bind_eq_ok hstep
    rw [htag, ok_bind] at hrest
    cases hrest
    exact .inr ⟨⟨_, rfl⟩, hphase⟩

/-- **A failure lasts until a reset is granted**, where the session lies
in memory as well: a failed phase is the invariant. -/
theorem failsUntilReset_of_faulted (hphase : p.phase = .faulted) :
    FailsUntilReset step p :=
  .of_invariant (fun p => p.phase = .faulted)
    (fun hp hstep => of_faulted hp hstep) hphase

/-- **A session in memory answers transforms** in the same way. A start
there may fault; if it does not, it comes to one of the two. -/
theorem transformsBy (p : PackedSession) :
    TransformsBy step p.objection? p.transformStart p where
  step_eq hc := p.step_task hc
  isObjection {length capacity _} he := by
    obtain ⟨e, hobjection, ho⟩ | ⟨ho, -⟩ := p.objection?_cases length capacity
    · cases ho.symm.trans he
      exact hobjection
    · cases ho.symm.trans he
  fits {task} h := by
    obtain ⟨e, -, ho⟩ | ⟨-, hfits⟩ :=
      p.objection?_cases task.length task.buffer.length
    · cases ho.symm.trans h
    · exact hfits
  started direction {buffer length} hlength := by
    intro answer hanswer
    obtain ⟨piece, hpiece, hasked⟩ := exists_of_bind_eq_ok hanswer
    obtain ⟨⟨reply, stream⟩, hstream, hput⟩ := exists_of_bind_eq_ok hasked
    obtain ⟨written, hput, hlast⟩ := exists_of_bind_eq_ok hput
    obtain ⟨hreply, rfl⟩ := eq_of_put_zero hput
    obtain rfl : buffer.take length = piece :=
      Except.ok.inj ((slice_zero hlength).symm.trans hpiece)
    obtain ⟨outcome, result⟩ := reply
    cases outcome with
    | ok _ =>
      cases hlast
      exact .granted hreply
    | error cause =>
      -- The stream has left the piece as it was, and it is put back where it
      -- came from.
      cases p.stream.step_leavesAll _ _ hstream cause rfl
      cases hlast
      have hback : buffer.take length ++ buffer.drop length = buffer :=
        List.take_append_drop length buffer
      dsimp only [Stream.Call.buffer]
      rw [hback]
      exact .broken cause (failsUntilReset_of_faulted rfl)

end PackedSession

/-- **Both forms of a transform agree**, and keep to their part of the
buffer, in every session and in every state of it, reachable or not. The
same is true of a session that lies in memory, of whatever a call there
answers; a call that faults has no answer. -/
theorem transforms_agree : (∀ s : Session, TransformsAgree Session.answer s)
    ∧ ∀ p : PackedSession, TransformsAgree PackedSession.step p :=
  ⟨fun s => s.transformsBy.transformsAgree,
    fun p => p.transformsBy.transformsAgree⟩

/-- One byte more than the longest message under the longest nonce: it
has been copied when it is refused, and stays. The laws hold there in
both sessions, and each shows which of the two forms was asked for. -/
theorem transforms_agree_past_limit :
    ∃ s, Session.ofKey .ccm (Bytes.zeros 16) 4 = .ok s
      ∧ let longest := Bytes.zeros (2 ^ 24 - 1)
        let now := (s.run [.reset (Bytes.zeros 12) [],
          .transformInPlace .encrypt longest longest.length]).2
        let refused := now.step (.transform .decrypt [1] [2, 3])
        refused.1.outcome = .error (.stream "decrypt" .messageTooLong)
          ∧ refused.1.buffer = [1, 3]
            ∧ FailsUntilReset Session.answer refused.2 := by
  have hkey : (Bytes.zeros 16).length = 16 := rfl
  obtain ⟨cipher, s, hs, hkeyed⟩ := Session.exists_ofKey .ccm 4 (.inl hkey) rfl
  refine ⟨s, hs, ?_⟩
  -- Of the message only the length is ever looked at.
  have hlength : (Bytes.zeros (2 ^ 24 - 1)).length = 2 ^ 24 - 1 :=
    Bytes.length_zeros _
  generalize Bytes.zeros (2 ^ 24 - 1) = message at hlength ⊢
  intro longest now refused
  obtain ⟨opened, hreset, hopened⟩ := Session.step_reset_granted hkeyed
    (show Mode.ccm.openingRefusal? (Bytes.zeros 12) ([] : Bytes).length
        = none from rfl)
  have hfits :
    Task.Fits ⟨.encrypt, longest.length, longest.take longest.length,
      longest⟩ :=
    ⟨Nat.lt_of_lt_of_eq (by decide) hlength.symm, Nat.le_refl _⟩
  have hlimit : 0 + longest.length
      ≤ Ccm.maxMessageLength (Bytes.zeros 12) := by
    rw [hlength]
    decide
  obtain ⟨stream, hgranted, hheld⟩ := hopened.transformStart_granted .encrypt []
    (Transcript.messageRefusal?_eq_none_iff.mpr hlimit)
  have hmessage : now = ⟨stream, .transforming⟩ := by
    show (((s.step (.reset (Bytes.zeros 12) [])).2).step
      (.transformInPlace .encrypt longest longest.length)).2 = _
    rw [hreset, Session.step_task _ rfl,
      Session.objection?_eq_none_iff.mpr ⟨rfl, hfits⟩]
    dsimp only
    rw [List.take_length, List.drop_length, hgranted]
  have hspent : ([] ++ longest).length + 1
    > Ccm.maxMessageLength (Bytes.zeros 12) := by
    rw [List.nil_append, hlength]
    decide
  have hrefused :
    Session.transformStart ⟨stream, .transforming⟩ .decrypt [1] [3]
      = (⟨.error (.stream "decrypt" .messageTooLong), [1, 3]⟩,
          ⟨stream, .faulted⟩) :=
    hheld.transformStart_refused .decrypt [3] (if_pos hspent)
  have houtcome : refused.1.outcome
    = .error (.stream "decrypt" .messageTooLong) := by
    show (now.step (.transform .decrypt [1] [2, 3])).1.outcome = _
    rw [hmessage]
    show (Session.transformStart ⟨stream, .transforming⟩ .decrypt [1]
        [3]).1.outcome = _
    rw [hrefused]
  obtain ⟨-, hbuffer, hfails⟩ := (transforms_agree.1 now).broken
    (show (Call.transform .decrypt [1] [2, 3]).task? = some _ from rfl)
    (show Session.answer now (.transform .decrypt [1] [2, 3])
        = .ok refused from rfl) houtcome rfl
  exact ⟨houtcome, hbuffer, hfails⟩

end Strongbox.Aead
