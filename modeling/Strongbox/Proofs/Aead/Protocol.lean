import Strongbox.Proofs.Aead.History

/-!
# The protocol of a session

When a call to a session is granted is a law about histories, and the
phase does not occur in it. `Session.KeepsProtocol` states it: for each
kind of call, what must have happened, and must not have happened since
the latest reset, for the call to be granted, and which calls are
refused because there has been no reset, or none since a failure.

Each clause is first shown of the phase. `Phase.Follows` then turns the
phase into the history.

* `Follows.outcome_task`, `Follows.outcome_authenticate` and
  `Follows.outcome_tag` say when each kind of call is granted, in terms
  of the phase, the limits and the lengths. They are equivalences: what
  is not excluded is granted.
* `step_eq_error` and `Holds.outcome_ne` are about the two refusals that
  point out that there is no message. The one says that they come when
  there is none, the other that they do not come when there is one.
* `keepsProtocol_of_ofKey` puts the history in the place of the phase,
  clause by clause.

A session that has failed can only be mended by a reset, and a session
that has given a tag takes no more of the message, but gives further
tags. Both are in the law: the first as `faulted`, the second as the
condition that `transform` has and `tag` has not.
-/

namespace Strongbox.Aead

open History

namespace Session

/-- Whether a call needs a message to be under way. That is every call
but a reset, and but the one that counter with CBC-MAC mode never
grants: that one is refused for the mode, whatever the phase is. -/
def Call.needsMessage (mode : Mode) : Call → Bool
  | reset _ _ => false
  | authenticate _ => mode = .gcm
  | _ => true

/-- **When the calls to a session are granted**, after a history.
Neither the phase nor the stream occurs in the conditions: they are
about events since the latest reset and about the sums of what has been
given. -/
structure KeepsProtocol (mode : Mode) (tagLength : Nat) (past : List Event)
    (s : Session) :
    Prop where
  /-- A transform, in either form, needs a reset since which no
  transform has failed and no tag operation has been completed. -/
  transform {call : Call} {task : Task} (hc : call.task? = some task) :
    (s.step call).1.outcome = .ok ()
      ↔ (Opened past ∧ NoneSince Event.isBroken past
          ∧ NoneSince Event.isClosed past)
        ∧ task.Fits
        ∧ (Transcript.ofHistory past).plaintext.length + task.length
          ≤ mode.maxMessageLength (Transcript.ofHistory past).nonce
  /-- More associated data needs a reset since which no transform has
  reached the stream and no tag operation has been completed. -/
  authenticate_gcm (hmode : mode = .gcm) (data : Bytes) :
    (s.step (.authenticate data)).1.outcome = .ok ()
      ↔ (Opened past ∧ NoneSince Event.reachesStream past
          ∧ NoneSince Event.isClosed past)
        ∧ (Transcript.ofHistory past).aad.length + data.length
          ≤ Gcm.maxAadLength
  /-- The other mode never takes it. -/
  authenticate_ccm (hmode : mode = .ccm) (data : Bytes) :
    (s.step (.authenticate data)).1.outcome = .error (.unsupported "aad" .ccm)
  /-- A tag needs a reset since which no transform has failed. -/
  tag (buffer : Bytes) :
    (s.step (.tag buffer)).1.outcome = .ok ()
      ↔ (Opened past ∧ NoneSince Event.isBroken past)
        ∧ mode.TakesTag tagLength buffer.length
  /-- Calls are refused for want of a reset as long as there has been
  none. -/
  notReset {call : Call} (hc : call.needsMessage mode = true) :
    (s.step call).1.outcome = .error .notReset ↔ NeverReset past
  /-- Calls are refused for a failure when the latest of all that can
  fail or mend it has failed. -/
  faulted {call : Call} (hc : call.needsMessage mode = true) :
    (s.step call).1.outcome = .error .faulted ↔ Failed past

variable {cipher : BlockCipher} {tagLength : Nat} {mode : Mode}
  {past : List Event} {s : Session}

/-! ## Calls that are granted -/

/-- When a transform is granted, in terms of the phase: it takes a
transform, the task fits, and the message stays within the limit of its
nonce. -/
theorem Follows.outcome_task (h : Follows cipher tagLength mode past s)
    {call : Call} {task : Task} (hc : call.task? = some task) :
    (s.step call).1.outcome = .ok ()
      ↔ s.phase.takesTransform = true ∧ task.Fits
        ∧ (Transcript.ofHistory past).plaintext.length + task.length
          ≤ mode.maxMessageLength (Transcript.ofHistory past).nonce := by
  rw [Session.step_task s hc]
  cases ho : s.objection? task.length task.buffer.length with
  | some e =>
    -- What is objected to does not satisfy the first two conditions.
    refine ⟨nofun, fun ⟨htakes, hfits, _⟩ => ?_⟩
    rw [objection?_eq_none_iff.mpr ⟨htakes, hfits⟩] at ho
    cases ho
  | none =>
    obtain ⟨htakes, hfits⟩ := objection?_eq_none_iff.mp ho
    have hheld := h.holds (Phase.inMessage_of_takesTransform htakes)
    have hlimit :
      (Transcript.ofHistory past).messageRefusal? mode task.piece.length = none
        ↔ (Transcript.ofHistory past).plaintext.length + task.length
          ≤ mode.maxMessageLength (Transcript.ofHistory past).nonce := by
      rw [Transcript.messageRefusal?_eq_none_iff, length_piece hc hfits]
    show (s.transformStart _ _ _).1.outcome = .ok () ↔ _
    cases hr :
      (Transcript.ofHistory past).messageRefusal? mode task.piece.length with
    | some e =>
      rw [hheld.transformStart_refused task.direction _ hr]
      rw [hr] at hlimit
      exact ⟨nofun, fun ⟨_, _, hle⟩ => nomatch hlimit.mpr hle⟩
    | none =>
      obtain ⟨stream, hstart, -⟩ := hheld.transformStart_granted task.direction
        (task.buffer.drop task.length) hr
      rw [hstart]
      exact ⟨fun _ => ⟨htakes, hfits, hlimit.mp hr⟩, fun _ => rfl⟩

/-- When more associated data is granted in Galois/counter mode: in the
phase right after a reset, as long as all of it stays within the limit. -/
theorem Follows.outcome_authenticate (h : Follows cipher tagLength .gcm past s)
    (data : Bytes) :
    (s.step (.authenticate data)).1.outcome = .ok ()
      ↔ s.phase = .reset
        ∧ (Transcript.ofHistory past).aad.length + data.length
          ≤ Gcm.maxAadLength := by
  by_cases hphase : s.phase = .reset
  · have hheld := h.holds (by rw [hphase]; rfl)
    have hlimit :=
      Transcript.aadRefusal?_gcm_eq_none_iff (t := Transcript.ofHistory past)
        (n := data.length)
    cases hr : (Transcript.ofHistory past).aadRefusal? .gcm data.length with
    | some e =>
      rw [hheld.step_authenticate_refused hphase hr]
      rw [hr] at hlimit
      exact ⟨nofun, fun hle => nomatch hlimit.mpr ⟨hheld.unbegun hphase, hle.2⟩⟩
    | none =>
      obtain ⟨stream, hstep, -⟩ := hheld.step_authenticate_granted hphase hr
      rw [hstep]
      exact ⟨fun _ => ⟨hphase, (hlimit.mp hr).2⟩, fun _ => rfl⟩
  · obtain ⟨e, hstep⟩ := step_authenticate_of_ne_reset hphase data
    rw [hstep]
    exact ⟨nofun, fun hle => absurd hle.1 hphase⟩

/-- When a tag is granted: in every phase of a message, for the lengths
that the mode takes. -/
theorem Follows.outcome_tag (h : Follows cipher tagLength mode past s)
    (buffer : Bytes) :
    (s.step (.tag buffer)).1.outcome = .ok ()
      ↔ s.phase.inMessage = true ∧ mode.TakesTag tagLength buffer.length := by
  show (s.tag buffer.length).1.outcome = .ok () ↔ _
  obtain ⟨hin, hn, tag, htag⟩ | ⟨hnot, e, -, htag⟩ := h.tag_cases buffer.length
  · rw [htag]
    exact ⟨fun _ => ⟨hin, hn⟩, fun _ => rfl⟩
  · rw [htag]
    exact ⟨nofun, fun hboth => absurd hboth hnot⟩

/-! ## Calls that are refused outside a message -/

/-- Before the first reset, and after a failure, every call that needs a
message is refused alike, and changes nothing. The phase is looked at
before anything else, so that no other error can come first. -/
theorem step_eq_error {e : Error}
    (hphase : s.phase = .constructed ∧ e = .notReset
        ∨ s.phase = .faulted ∧ e = .faulted)
    {call : Call} (hc : call.needsMessage s.mode = true) :
    ∃ buffer, s.step call = (⟨.error e, buffer⟩, s) := by
  have htask {call : Call} {task : Task} (ht : call.task? = some task) :
      ∃ buffer, s.step call = (⟨.error e, buffer⟩, s) := by
    have hobjection : s.objection? task.length task.buffer.length = some e := by
      unfold objection?
      obtain ⟨hp, rfl⟩ | ⟨hp, rfl⟩ := hphase <;> rw [hp]
    exact ⟨task.buffer, by rw [Session.step_task s ht, hobjection]⟩
  have htag (n : Nat) : s.tag n = (⟨.error e, Bytes.zeros n⟩, s) := by
    unfold tag
    obtain ⟨hp, rfl⟩ | ⟨hp, rfl⟩ := hphase <;> rw [hp]
  cases call with
  | reset nonce aad => exact Bool.noConfusion hc
  | authenticate data =>
    have hccm : ¬s.mode = .ccm := by
      rw [of_decide_eq_true hc]
      exact nofun
    refine ⟨[], ?_⟩
    simp only [step, authenticate, if_neg hccm]
    obtain ⟨hp, rfl⟩ | ⟨hp, rfl⟩ := hphase <;> rw [hp]
  | transform direction input output => exact htask rfl
  | transformInPlace direction buffer length => exact htask rfl
  | tag buffer => exact ⟨_, htag buffer.length⟩
  | verify expected => exact ⟨[], by rw [step_verify, htag]⟩

/-- In a message no call is refused for want of one. The errors that do
come are named in the cases: each is another than the two excluded here. -/
theorem Holds.outcome_ne {t : Transcript} (h : Holds cipher tagLength mode t s)
    {call : Call} (hc : call.needsMessage mode = true) :
    (s.step call).1.outcome ≠ .error .notReset
      ∧ (s.step call).1.outcome ≠ .error .faulted := by
  have hin := h.inMessage
  have htask {call : Call} {task : Task} (ht : call.task? = some task) :
      (s.step call).1.outcome ≠ .error .notReset
        ∧ (s.step call).1.outcome ≠ .error .faulted := by
    rw [Session.step_task s ht]
    cases ho : s.objection? task.length task.buffer.length with
    | some e =>
      obtain ⟨hc, hf⟩ := Phase.ne_of_inMessage h.inMessage
      obtain ⟨hp, -⟩ | ⟨hp, -⟩ | rfl | rfl | rfl := objection?_cases ho
      · exact absurd hp hc
      · exact absurd hp hf
      all_goals simp
    | none =>
      show (s.transformStart _ _ _).1.outcome ≠ _
        ∧ (s.transformStart _ _ _).1.outcome ≠ _
      unfold transformStart
      cases s.stream.transform task.direction task.piece with
      | error e => simp
      | ok out => simp
  cases call with
  | reset nonce aad => exact Bool.noConfusion hc
  | authenticate data =>
    obtain rfl : mode = .gcm := of_decide_eq_true hc
    simp only [step, authenticate, if_neg (mode_ne_ccm h.stream.keyed)]
    cases hp : s.phase with
    | constructed | faulted => rw [hp] at hin; exact Bool.noConfusion hin
    | transforming | tagExtracted => simp
    | reset =>
      dsimp only
      split
      · simp
      · cases s.stream.authenticate data <;> simp
  | transform direction input output => exact htask rfl
  | transformInPlace direction buffer length => exact htask rfl
  | tag buffer =>
    show (s.tag buffer.length).1.outcome ≠ _
      ∧ (s.tag buffer.length).1.outcome ≠ _
    rw [h.tag_eq]
    split <;> simp
  | verify expected =>
    rw [step_verify, h.tag_eq]
    by_cases hn : mode.TakesTag tagLength expected.length
    · rw [if_pos hn]
      dsimp only
      split <;> simp
    · rw [if_neg hn]
      simp

/-- **Whether a call is refused for want of a message** shows the phase:
either refusal comes in one phase only, and in that phase always. -/
theorem Follows.outcome_error (h : Follows cipher tagLength mode past s)
    {call : Call} (hc : call.needsMessage mode = true) :
    ((s.step call).1.outcome = .error .notReset ↔ s.phase = .constructed)
      ∧ ((s.step call).1.outcome = .error .faulted ↔ s.phase = .faulted) := by
  have hc' : call.needsMessage s.mode = true := by
    rw [show s.mode = mode from h.keyed.mode_eq]
    exact hc
  cases hphase : s.phase with
  | constructed =>
    obtain ⟨buffer, hstep⟩ := step_eq_error (.inl ⟨hphase, rfl⟩) hc'
    rw [hstep]
    exact ⟨⟨fun _ => rfl, fun _ => rfl⟩, nofun, nofun⟩
  | faulted =>
    obtain ⟨buffer, hstep⟩ := step_eq_error (.inr ⟨hphase, rfl⟩) hc'
    rw [hstep]
    exact ⟨⟨nofun, nofun⟩, fun _ => rfl, fun _ => rfl⟩
  | reset | transforming | tagExtracted =>
    obtain ⟨hr, hf⟩ := (h.holds (by rw [hphase]; rfl)).outcome_ne hc
    exact ⟨⟨fun ho => absurd ho hr, nofun⟩, fun ho => absurd ho hf, nofun⟩

/-! ## The law -/

/-- **Every session keeps the protocol**, from the time it was made, in
both modes and after every list of calls: what the next call is answered
can be told from the exchanges so far. An onlooker needs no more than
that; neither the phase nor the stream occurs in the law, and refused
calls count in it as far as the law says and no further. -/
theorem keepsProtocol_of_ofKey (mode : Mode) (key : Bytes) (tagLength : Nat)
    (s : Session) (hs : ofKey mode key tagLength = .ok s) (calls : List Call) :
    KeepsProtocol mode tagLength (s.history calls) (s.run calls).2 := by
  obtain ⟨cipher, h⟩ := follows_history hs calls
  rw [run_eq]
  constructor
  · intro call task hc
    rw [h.outcome_task hc, h.phase.takesTransform]
  · rintro rfl data
    rw [h.outcome_authenticate, h.phase.reset]
  · rintro rfl data
    rw [step_authenticate_ccm h.keyed]
  · intro buffer
    rw [h.outcome_tag, h.phase.inMessage]
  · intro call hc
    rw [(h.outcome_error hc).1, h.phase.constructed]
  · intro call hc
    rw [(h.outcome_error hc).2, h.phase.faulted]

/-- A reset that is refused for its nonce, a piece that comes all the
same, and another reset, which mends it. The session of the general
theorem exists, and its history is one with a failure in it. -/
theorem keepsProtocol_after_refusedReset :
    ∃ s, ofKey .gcm (Bytes.zeros 16) 16 = .ok s
      ∧ KeepsProtocol .gcm 16
          (s.history
              [.reset [] [], .transformInPlace .encrypt [1] 1, .reset [2] [3]])
          (s.run [.reset [] [], .transformInPlace .encrypt [1] 1,
              .reset [2] [3]]).2 := by
  have hkey : (Bytes.zeros 16).length = 16 := rfl
  obtain ⟨-, s, hs, -⟩ := exists_ofKey .gcm 16 (.inl hkey) rfl
  exact ⟨s, hs, keepsProtocol_of_ofKey .gcm (Bytes.zeros 16) 16 s hs _⟩

end Session

end Strongbox.Aead
