import Strongbox.Proofs.Aead.History

/-!
# What of the stream comes to light

A session passes on what its stream refuses, with the name of the
operation. The stream could refuse for many reasons: a nonce or a tag of
the wrong length, associated data that comes late, a message that has
never been begun. Most of them the session has looked at before it asks
the stream, in its own terms, and `Session.ReportsOnly` says which are
left. They are the length of the nonce, which only the stream knows the
limits of, and what a message or its associated data has come to, which
only the stream counts.

In particular the stream never refuses a tag that the session asks it
for. The session is prepared for that all the same, but what it would
then do is never done.

The protocol has to be known for this: that a session in the middle of a
message holds one, also after a reset that was refused and has left the
stream with the message before. It is taken from
`Session.follows_history`.

* `outcome_reset_eq_error_iff` and `ofKey_eq_error_iff` settle the two
  calls that can be made without a message, as equivalences.
* `Follows.cause_of_authenticate` and `Follows.cause_of_transform` are
  about calls in a message; outside one, the session refuses them itself
  and there is no cause.
* `Holds.exists_tag` is why a tag has no cause: a stream that holds a
  message makes a tag of every length that the session lets through.
-/

namespace Strongbox.Aead.Session

/-- Whether a call asks for the tag, to write it or to compare it. These
are the calls for which the stream is never the cause of a refusal. -/
def Call.asksTag : Call → Bool
  | tag _ | verify _ => true
  | _ => false

/-- **What a session lets out of its stream's refusals.** Every other
refusal is one of its own, without a cause. -/
structure ReportsOnly (mode : Mode) (s : Session) : Prop where
  /-- A reset is refused by the stream, if at all, for the length of the
  nonce, and in Galois/counter mode for that of the associated data. -/
  reset {nonce aad : Bytes} {e : Error} :
    (s.step (.reset nonce aad)).1.outcome = .error e ↔
      ∃ cause, e = .initialization "reset" cause
        ∧ (cause = .nonceLength nonce.length ∧ ¬mode.TakesNonce nonce
          ∨ cause = .aadTooLong ∧ mode.TakesNonce nonce ∧ mode = .gcm
            ∧ Gcm.maxAadLength < aad.length)
  /-- Later associated data is refused by the stream for its length
  alone. -/
  authenticate {data : Bytes} {e : Error} {cause : StreamError}
    (he : (s.step (.authenticate data)).1.outcome = .error e)
    (hcause : e.cause? = some cause) :
    e = .stream "aad" .aadTooLong ∧ mode = .gcm
  /-- A transform, in either form, is refused by the stream for its
  length alone. -/
  transform {call : Call} {task : Task} (hc : call.task? = some task)
    {e : Error} {cause : StreamError}
    (he : (s.step call).1.outcome = .error e)
    (hcause : e.cause? = some cause) :
    e = .stream task.direction.name .messageTooLong
  /-- A tag is never refused by the stream. -/
  tag {call : Call} (hc : call.asksTag = true) {e : Error}
    (he : (s.step call).1.outcome = .error e) : e.cause? = none
  /-- The stream has a tag whenever the session comes to ask for it. -/
  exists_tag {length : Nat}
    (hphase : s.phase ≠ .constructed ∧ s.phase ≠ .faulted)
    (hlength : s.takesTagLength length = true) :
    ∃ tag, s.stream.tag length = .ok tag

variable {cipher : BlockCipher} {tagLength : Nat} {mode : Mode}
  {past : List Event} {s : Session}

/-! ## Setting up -/

/-- **Why a message is not begun**: for the length of its nonce, or of
its associated data. The second is looked at only under a nonce that is
taken, and only one of the modes has a limit for it. -/
theorem openingRefusal?_eq_some_iff {nonce : Bytes} {n : Nat}
    {cause : StreamError} :
    mode.openingRefusal? nonce n = some cause ↔
      cause = .nonceLength nonce.length ∧ ¬mode.TakesNonce nonce
        ∨ cause = .aadTooLong ∧ mode.TakesNonce nonce ∧ mode = .gcm
          ∧ Gcm.maxAadLength < n := by
  unfold Mode.openingRefusal?
  by_cases hn : mode.TakesNonce nonce
  · rw [show mode.nonceRefusal? nonce = none from if_pos hn, Option.none_or]
    cases mode with
    | ccm => simp [Transcript.aadRefusal?, Transcript.start, hn]
    | gcm =>
      -- Nothing has been given yet, so that the message has not begun.
      show (if 0 + n > Gcm.maxAadLength then some StreamError.aadTooLong
          else none) = some cause
        ↔ _
      rw [Nat.zero_add]
      by_cases hlong : Gcm.maxAadLength < n
      · simp [hlong, hn, eq_comm]
      · simp [hlong, hn]
  · rw [show mode.nonceRefusal? nonce
      = some (.nonceLength nonce.length) from if_neg hn,
      Option.some_or]
    simp [hn, eq_comm]

/-- A reset that is refused is refused for the reason that the mode has,
in every phase and with whatever message before: the stream is keyed,
and nothing else is read. -/
theorem outcome_reset_eq_error_iff
    (h : Stream.Keyed cipher tagLength mode s.stream) {nonce aad : Bytes}
    {e : Error} :
    (s.step (.reset nonce aad)).1.outcome = .error e ↔
      ∃ cause, e = .initialization "reset" cause
        ∧ mode.openingRefusal? nonce aad.length = some cause := by
  cases hr : mode.openingRefusal? nonce aad.length with
  | none =>
    obtain ⟨stream, hstep, -⟩ := step_reset_granted h hr
    rw [hstep]
    exact ⟨nofun, nofun⟩
  | some refusal =>
    rw [step_reset_refused h hr]
    constructor
    · intro he
      exact ⟨refusal, (Except.error.inj he).symm, rfl⟩
    · rintro ⟨cause, rfl, hcause⟩
      cases hcause
      rfl

/-- **Why a session is not made**: for the length of its key, or of its
tags in the mode that fixes it. The key is looked at first. -/
theorem ofKey_eq_error_iff {key : Bytes} {e : Error} :
    ofKey mode key tagLength = .error e ↔
      e = .keyLength key.length ∧ key.length ∉ [16, 24, 32]
        ∨ e = .tagLength tagLength ∧ key.length ∈ [16, 24, 32] ∧ mode = .ccm
          ∧ tagLength ∉ Ccm.tagLengths := by
  by_cases hkey : key.length = 16 ∨ key.length = 24 ∨ key.length = 32
  · have hmem : key.length ∈ [16, 24, 32] := by simpa using hkey
    by_cases htag : Stream.acceptsTagLength mode tagLength = true
    · obtain ⟨-, s, hs, -⟩ := exists_ofKey mode tagLength hkey htag
      have hfits : mode = .ccm → tagLength ∈ Ccm.tagLengths := by
        rintro rfl
        exact List.contains_iff_mem.mp htag
      rw [hs]
      constructor
      · exact nofun
      · rintro (⟨-, hnot⟩ | ⟨-, -, hmode, hnot⟩)
        · exact absurd hmem hnot
        · exact absurd (hfits hmode) hnot
    · have hstream : Stream.ofKey mode key tagLength
        = .error (.tagLength tagLength) := by
        simp [Stream.ofKey, htag]
      have hrefused : ofKey mode key tagLength
        = .error (.tagLength tagLength) := by
        unfold ofKey
        rw [hstream]
        rcases hkey with h | h | h <;> rw [h] <;> rfl
      have hccm : mode = .ccm ∧ tagLength ∉ Ccm.tagLengths := by
        cases mode with
        | gcm => exact absurd rfl htag
        | ccm => exact ⟨rfl, fun hin => htag (List.contains_iff_mem.mpr hin)⟩
      rw [hrefused]
      simp [hmem, hccm, eq_comm]
  · have hmem : key.length ∉ [16, 24, 32] := by simpa using hkey
    have hsize : Aes.KeySize.ofLength? key.length = none := by
      unfold Aes.KeySize.ofLength?
      split <;> first | rfl | omega
    have hrefused : ofKey mode key tagLength
      = .error (.keyLength key.length) := by
      unfold ofKey
      rw [hsize]
    rw [hrefused]
    simp [hmem, eq_comm]

/-! ## In a message -/

/-- Later associated data has a cause only when it is too long: that the
message has begun is found by the phase, before the stream is asked. -/
theorem Follows.cause_of_authenticate (h : Follows cipher tagLength mode past s)
    {data : Bytes} {e : Error} {cause : StreamError}
    (he : (s.step (.authenticate data)).1.outcome = .error e)
    (hcause : e.cause? = some cause) :
    e = .stream "aad" .aadTooLong ∧ mode = .gcm := by
  cases mode with
  | ccm =>
    rw [step_authenticate_ccm h.keyed] at he
    cases he
    cases hcause
  | gcm =>
    by_cases hphase : s.phase = .reset
    · have hheld := h.holds (by rw [hphase]; rfl)
      cases hr : (Transcript.ofHistory past).aadRefusal? .gcm data.length with
      | none =>
        obtain ⟨stream, hstep, -⟩ := hheld.step_authenticate_granted hphase hr
        rw [hstep] at he
        cases he
      | some refusal =>
        rw [hheld.step_authenticate_refused hphase hr] at he
        cases he
        simp only [Transcript.aadRefusal?, hheld.unbegun hphase,
          Bool.false_eq_true,
          if_false] at hr
        split at hr
        · cases hr
          exact ⟨rfl, rfl⟩
        · cases hr
    · -- In every other phase the stream is not asked.
      simp only [Session.step, Session.authenticate,
        if_neg (mode_ne_ccm h.keyed)] at he
      cases hp : s.phase with
      | reset => exact absurd hp hphase
      | constructed | faulted | transforming | tagExtracted =>
        rw [hp] at he
        cases he
        cases hcause

/-- A transform has a cause only when the message is too long: a stream
that has no nonce is never asked for one. -/
theorem Follows.cause_of_transform (h : Follows cipher tagLength mode past s)
    {call : Call} {task : Task} (hc : call.task? = some task) {e : Error}
    {cause : StreamError} (he : (s.step call).1.outcome = .error e)
    (hcause : e.cause? = some cause) :
    e = .stream task.direction.name .messageTooLong := by
  rw [Session.step_task s hc] at he
  cases ho : s.objection? task.length task.buffer.length with
  | some objection =>
    rw [ho] at he
    cases he
    obtain ⟨-, rfl⟩ | ⟨-, rfl⟩ | rfl | rfl | rfl :=
      objection?_cases ho <;> cases hcause
  | none =>
    rw [ho] at he
    obtain ⟨htakes, -⟩ := objection?_eq_none_iff.mp ho
    have hheld := h.holds (Phase.inMessage_of_takesTransform htakes)
    dsimp only at he
    cases hr :
      (Transcript.ofHistory past).messageRefusal? mode task.piece.length with
    | none =>
      obtain ⟨stream, hstart, -⟩ := hheld.transformStart_granted task.direction
        (task.buffer.drop task.length) hr
      rw [hstart] at he
      cases he
    | some refusal =>
      rw [hheld.transformStart_refused task.direction _ hr] at he
      cases he
      unfold Transcript.messageRefusal? at hr
      split at hr <;> cases hr
      rfl

/-- **The tag of a message is there to be asked for**, in the lengths
that the session lets through. -/
theorem Holds.exists_tag {t : Transcript} (h : Holds cipher tagLength mode t s)
    {length : Nat} (hlength : s.takesTagLength length = true) :
    ∃ tag, s.stream.tag length = .ok tag := by
  rw [takesTagLength_eq h.stream.keyed, decide_eq_true_iff] at hlength
  have hs := h.stream.tag length
  rw [Transcript.tagRefusal?_eq_none_iff.mpr hlength] at hs
  obtain ⟨tag, hs, -⟩ := hs
  exact ⟨tag, hs⟩

/-- A tag that is refused has no cause: the length was looked at before,
and the stream has a tag of every length that was let through. -/
theorem Follows.cause?_of_tag (h : Follows cipher tagLength mode past s)
    {length : Nat} {e : Error} (he : (s.tag length).1.outcome = .error e) :
    e.cause? = none := by
  cases hphase : s.phase with
  | constructed | faulted =>
    rw [tag, hphase] at he
    cases he
    rfl
  | reset | transforming | tagExtracted =>
    have hheld := h.holds (by rw [hphase]; rfl)
    rw [hheld.tag_eq] at he
    split at he <;> cases he
    rfl

/-- Each call of a session that agrees with its history keeps to the
refusals that `ReportsOnly` names. -/
theorem Follows.reportsOnly (h : Follows cipher tagLength mode past s) :
    ReportsOnly mode s where
  reset {nonce aad e} := by
    rw [outcome_reset_eq_error_iff h.keyed]
    simp only [openingRefusal?_eq_some_iff]
  authenticate he hcause := h.cause_of_authenticate he hcause
  transform hc _ _ he hcause := h.cause_of_transform hc he hcause
  tag {call} hc {e} he := by
    cases call with
    | tag buffer => exact h.cause?_of_tag he
    | verify expected =>
      rw [step_verify] at he
      cases htag : (s.tag expected.length).1.outcome with
      | error e' =>
        rw [htag] at he
        cases he
        exact h.cause?_of_tag htag
      | ok _ =>
        rw [htag] at he
        dsimp only at he
        split at he <;> cases he
        rfl
    | _ => exact Bool.noConfusion hc
  exists_tag {length} hphase hlength := by
    have hin : s.phase.inMessage = true := by
      cases hp : s.phase with
      | constructed => exact absurd hp hphase.1
      | faulted => exact absurd hp hphase.2
      | reset | transforming | tagExtracted => rfl
    exact (h.holds hin).exists_tag hlength

/-! ## The law -/

/-- **Only what is meant to comes to light of the stream**, from every
session that is made of a key and after every list of calls. Where no
session is made, the key is to blame first, and then, in the one mode
whose streams have a fixed tag length, that length. -/
theorem reportsOnly_of_ofKey (mode : Mode) (key : Bytes) (tagLength : Nat) :
    (∀ e, ofKey mode key tagLength = .error e ↔
      e = .keyLength key.length ∧ key.length ∉ [16, 24, 32]
        ∨ e = .tagLength tagLength ∧ key.length ∈ [16, 24, 32] ∧ mode = .ccm
          ∧ tagLength ∉ Ccm.tagLengths)
    ∧ ∀ s, ofKey mode key tagLength = .ok s → ∀ calls,
      ReportsOnly mode (s.run calls).2 := by
  refine ⟨fun e => ofKey_eq_error_iff, fun s hs calls => ?_⟩
  obtain ⟨cipher, h⟩ := follows_history hs calls
  rw [run_eq]
  exact h.reportsOnly

/-- A tag length that the mode does not have, and a session that is left
with half a message by a reset that was refused: the stream still holds
the message before, and is not asked about it. -/
theorem reportsOnly_of_ofKey_after_refusedReset :
    ofKey .ccm (Bytes.zeros 16) 5 = .error (.tagLength 5)
      ∧ ∃ s, ofKey .ccm (Bytes.zeros 16) 4 = .ok s
        ∧ ReportsOnly .ccm
          (s.run [.reset (Bytes.zeros 12) [1], .transform .encrypt [2] [3, 4],
            .reset [] []]).2 := by
  have hkey : (Bytes.zeros 16).length = 16 := rfl
  have hrefused :=
    (reportsOnly_of_ofKey .ccm (Bytes.zeros 16) 5).1 (.tagLength 5)
  obtain ⟨-, s, hs, -⟩ := exists_ofKey .ccm 4 (.inl hkey) rfl
  exact ⟨hrefused.mpr (.inr ⟨rfl, by decide, rfl, by decide⟩), s, hs,
    (reportsOnly_of_ofKey .ccm (Bytes.zeros 16) 4).2 s hs _⟩

end Strongbox.Aead.Session
