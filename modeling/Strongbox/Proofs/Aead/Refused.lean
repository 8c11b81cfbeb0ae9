import Strongbox.Aead.Packed
import Strongbox.Proofs.Aead.Stream
import Strongbox.Proofs.Checked

/-!
# Calls that are refused

A stream that refuses a call leaves the caller's buffer and itself as
they were, so that the call might as well not have been made
(`run_insert_refused`). This is not a matter of course where the working
state lies in memory: an operation there writes into several places one
after another, and a check that came after the first of them would leave
half of it done. What makes it true is that every operation looks at all
that it could refuse before it writes anything, and that once it has
begun it has nothing left to refuse.

`LeavesAll` says so of one answer. It is shown of each operation of the
two modes, from which `Packed.step_leavesAll` and
`Stream.step_leavesAll` put it together for a call in any state;
`withAnswer` then carries it through the calls before and after.

* `reset_leavesAll`, `authenticate_leavesAll`, `transform_leavesAll` and
  `tag_leavesAll`, for each of the two modes, go through the checks at
  the beginning of an operation in memory. Behind the last check there
  is only what is granted (`LeavesAll.granted`), however many places are
  written.
* `Packed.step_leavesAll` holds in every state of the memory, reachable
  or not, and needs no invariant: where a step faults, there is no
  answer to speak of.
* `Stream.step_leavesAll` is immediate, since a stream is a value.
* `Stream.run_refused` and `Packed.run_refused` insert one call into a
  run. Both are by the equation for a run of two lists, with the call
  between them.
-/

namespace Strongbox.Aead

open Checked

/-! ## One answer -/

/-- **A refusal leaves everything as it was**, the caller's buffer and
what has answered. Of an answer that is granted it says nothing. -/
def LeavesAll {σ : Type} (p : σ) (buffer : Bytes)
    (answer : Reply StreamError × σ) : Prop :=
  ∀ e, answer.1.outcome = .error e → answer = (⟨.error e, buffer⟩, p)

section

variable {σ : Type} {p q : σ} {buffer result : Bytes}

/-- An answer that hands back the buffer and the state with its refusal
leaves everything. -/
theorem LeavesAll.refused (e : StreamError) :
    LeavesAll p buffer (⟨.error e, buffer⟩, p) := by
  rintro _ ⟨⟩
  rfl

/-- What is granted may change everything, buffer and state alike. The
law is about refusals, and so it holds of every answer that is none. -/
theorem LeavesAll.granted : LeavesAll p buffer (⟨.ok (), result⟩, q) := nofun

end

namespace Gcm.Packed

variable (p : Packed)

theorem reset_leavesAll (nonce : Bytes) :
    Ensures (LeavesAll p []) (p.reset nonce) := by
  unfold reset
  split
  · exact .ok (.refused _)
  · refine .bind fun _ => .bind fun _ => .bind fun ⟨_, _⟩ => .bind fun _ =>
      .bind fun _ => ?_
    exact .bind fun _ => .bind fun _ => .bind fun _ => .ok .granted

theorem authenticate_leavesAll (data : Bytes) :
    Ensures (LeavesAll p []) (p.authenticate data) := by
  unfold authenticate
  split
  · exact .ok (.refused _)
  · split
    · exact .ok (.refused _)
    · exact .bind fun _ => .ok .granted

theorem transform_leavesAll (direction : Direction) (buffer : Bytes) :
    Ensures (LeavesAll p buffer) (p.transform direction buffer) := by
  unfold transform
  split
  · exact .ok (.refused _)
  · exact .bind fun _ => .bind fun ⟨_, _⟩ => .ok .granted

theorem tag_leavesAll (buffer : Bytes) :
    Ensures (LeavesAll p buffer) (p.tag buffer) := by
  unfold tag
  split
  · exact .ok (.refused _)
  · refine .bind fun _ => .bind fun _ => .bind fun _ => .bind fun _ =>
      .bind fun _ => ?_
    exact .bind fun _ => .bind fun _ => .bind fun _ => .ok .granted

end Gcm.Packed

namespace Ccm.Packed

variable (p : Packed)

theorem reset_leavesAll (nonce : Bytes) :
    Ensures (LeavesAll p []) (p.reset nonce) := by
  unfold reset
  split
  · exact .ok (.refused _)
  · refine .bind fun _ => .bind fun _ => .bind fun _ => .bind fun _ =>
      .bind fun _ => ?_
    exact .bind fun _ => .bind fun _ => .ok .granted

theorem authenticate_leavesAll (data : Bytes) :
    Ensures (LeavesAll p []) (p.authenticate data) := by
  unfold authenticate
  split
  · exact .ok (.refused _)
  · split
    · exact .ok (.refused _)
    · exact .bind fun _ => .ok .granted

theorem transform_leavesAll (direction : Direction) (buffer : Bytes) :
    Ensures (LeavesAll p buffer) (p.transform direction buffer) := by
  unfold transform
  split
  · exact .ok (.refused _)
  · refine .bind fun hasRoom => ?_
    split
    · cases direction with
      | encrypt => exact .bind fun _ => .bind fun ⟨_, _⟩ => .ok .granted
      | decrypt => exact .bind fun ⟨_, _⟩ => .bind fun _ => .ok .granted
    · exact .ok (.refused _)

theorem tag_leavesAll (buffer : Bytes) :
    Ensures (LeavesAll p buffer) (p.tag buffer) := by
  unfold tag
  split
  · exact .ok (.refused _)
  · split
    · exact .ok (.refused _)
    · refine .bind fun _ => .bind fun _ => .bind fun _ => .bind fun _ =>
        .bind fun _ => ?_
      exact .bind fun _ => .bind fun _ => .bind fun _ => .bind fun _ =>
        .ok .granted

end Ccm.Packed

/-- An answer of one mode that leaves everything does so as an answer of
a stream, which puts the state of the mode under its constructor. -/
theorem Packed.answered_leavesAll {σ : Type} {p : σ} {buffer : Bytes}
    {answer : Checked (Reply StreamError × σ)}
    (h : Ensures (LeavesAll p buffer) answer) (wrap : σ → Packed) :
    Ensures (LeavesAll (wrap p) buffer) (answered wrap answer) := by
  refine h.map fun (reply, q) hleaves e he => ?_
  cases hleaves e he
  rfl

/-- **What a stream in memory refuses leaves everything as it was**, in
every state that there is. -/
theorem Packed.step_leavesAll (p : Packed) (call : Stream.Call) :
    Ensures (LeavesAll p call.buffer) (p.step call) := by
  cases p with
  | gcm p =>
    cases call with
    | reset nonce => exact answered_leavesAll (p.reset_leavesAll nonce) gcm
    | authenticate data =>
      exact answered_leavesAll (p.authenticate_leavesAll data) gcm
    | transform direction buffer =>
      exact answered_leavesAll (p.transform_leavesAll direction buffer) gcm
    | tag buffer => exact answered_leavesAll (p.tag_leavesAll buffer) gcm
  | ccm p =>
    cases call with
    | reset nonce => exact answered_leavesAll (p.reset_leavesAll nonce) ccm
    | authenticate data =>
      exact answered_leavesAll (p.authenticate_leavesAll data) ccm
    | transform direction buffer =>
      exact answered_leavesAll (p.transform_leavesAll direction buffer) ccm
    | tag buffer => exact answered_leavesAll (p.tag_leavesAll buffer) ccm

/-- **What a stream refuses leaves everything as it was**, in every
state and not only in those that a stream can get into. -/
theorem Stream.step_leavesAll (s : Stream) (call : Stream.Call) :
    LeavesAll s call.buffer (s.step call) := by
  unfold step
  cases call <;> dsimp only <;> split <;>
    first | exact .granted | exact .refused _

/-! ## Histories -/

/-- **A run with one more answer** among the others, as the one with
this index. The state at the end is the same. -/
def withAnswer {σ : Type} (n : Nat) (reply : Reply StreamError)
    (run : List (Reply StreamError) × σ) : List (Reply StreamError) × σ :=
  (run.1.insertIdx n reply, run.2)

/-- **A call that a stream refuses changes no other answer**: what comes
before it does not know of it, and what comes after starts from the same
state. -/
theorem Stream.run_refused (s : Stream) (before later : List Call) {call : Call}
    {e : StreamError} (he : ((s.run before).2.step call).1.outcome = .error e) :
    s.run (before ++ call :: later)
      = withAnswer before.length ⟨.error e, call.buffer⟩
        (s.run (before ++ later)) := by
  induction before generalizing s with
  | nil =>
    have hstep : s.step call = (⟨.error e, call.buffer⟩, s) :=
      s.step_leavesAll call e he
    show ((s.step call).1 :: ((s.step call).2.run later).1,
        ((s.step call).2.run later).2) = _
    rw [hstep]
    rfl
  | cons first before ih =>
    show ((s.step first).1
        :: ((s.step first).2.run (before ++ call :: later)).1,
      ((s.step first).2.run (before ++ call :: later)).2) = _
    rw [ih (s.step first).2 he]
    rfl

/-- **A call that a stream in memory refuses changes no other answer.**
If the run with the call faults afterwards, so does the one without it,
for the same reason. -/
theorem Packed.run_refused {p q q' : Packed} {before later : List Stream.Call}
    {call : Stream.Call} {replies : List (Reply StreamError)}
    {reply : Reply StreamError} {e : StreamError}
    (hrun : p.run before = .ok (replies, q))
    (hstep : q.step call = .ok (reply, q')) (he : reply.outcome = .error e) :
    p.run (before ++ call :: later)
      = (p.run (before ++ later)).map
        (withAnswer before.length ⟨.error e, call.buffer⟩) := by
  induction before generalizing p replies with
  | nil =>
    cases hrun
    cases q.step_leavesAll call _ hstep e he
    show (q.step call >>= _) = _
    rw [bind_eq hstep]
    show (q.run later >>= _) = (q.run later).map _
    cases q.run later <;> rfl
  | cons first before ih =>
    obtain ⟨⟨answer, p₁⟩, hfirst, hrest⟩ := exists_of_bind_eq_ok hrun
    obtain ⟨⟨answers, _⟩, hrest, hlast⟩ := exists_of_bind_eq_ok hrest
    cases hlast
    show (p.step first >>= _) = (p.step first >>= _).map _
    rw [bind_eq hfirst, bind_eq hfirst]
    show (p₁.run (before ++ call :: later) >>= _)
      = (p₁.run (before ++ later) >>= _).map _
    rw [ih hrest]
    cases p₁.run (before ++ later) <;> rfl

/-- **A refused call might as well not have been made.** Put into a
history of calls, at a place where it is refused, it leaves its buffer
as it was and all other answers, and the state at the end, as they are
without it. That is so of both modes, before the first nonce as well as
after it and wherever the history began; and of a stream in memory no
less than of the stream. -/
theorem run_insert_refused (before later : List Stream.Call)
    (call : Stream.Call) (e : StreamError) :
    (∀ s : Stream, ((s.run before).2.step call).1.outcome = .error e →
      s.run (before ++ call :: later)
        = withAnswer before.length ⟨.error e, call.buffer⟩
          (s.run (before ++ later)))
    ∧ ∀ (p q q' : Packed) (replies : List (Reply StreamError))
      (reply : Reply StreamError),
      p.run before = .ok (replies, q) → q.step call = .ok (reply, q') →
      reply.outcome = .error e →
      p.run (before ++ call :: later)
        = (p.run (before ++ later)).map
          (withAnswer before.length ⟨.error e, call.buffer⟩) :=
  ⟨fun s he => s.run_refused before later he,
    fun _ _ _ _ _ hrun hstep he => Packed.run_refused hrun hstep he⟩

/-- A transform before the first nonce, in front of a message that is
given afterwards: refused, by the stream and by the one in memory. -/
theorem run_insert_refused_before_nonce :
    ∃ s p, Stream.ofKey .ccm (Bytes.zeros 16) 4 = .ok s
      ∧ Packed.ofKey .ccm (Bytes.zeros 16) 4 = .ok (.ok p)
      ∧ let calls : List Stream.Call :=
        [.reset (Bytes.zeros 12), .transform .decrypt [2, 3],
          .tag [0, 0, 0, 0]]
        let refusal : Reply StreamError := ⟨.error (.nonceLength 0), [1]⟩
        s.run (.transform .encrypt [1] :: calls)
          = withAnswer 0 refusal (s.run calls)
          ∧ p.run (.transform .encrypt [1] :: calls)
            = (p.run calls).map (withAnswer 0 refusal) := by
  have hkey : (Bytes.zeros 16).length = 16 := rfl
  obtain ⟨cipher, hcipher⟩ := exists_blockCipher (.inl hkey)
  have hs : Stream.ofKey .ccm (Bytes.zeros 16) 4
    = .ok (Stream.ofCipher .ccm cipher 4) := by
    unfold Stream.ofKey
    rw [hcipher]
    rfl
  have hp : Packed.ofKey .ccm (Bytes.zeros 16) 4
      = .ok (.ok (.ccm (Ccm.Packed.ofCipher cipher 4))) := by
    unfold Packed.ofKey
    rw [hcipher]
    rfl
  refine ⟨_, _, hs, hp, ?_⟩
  intro calls refusal
  obtain ⟨hstream, hpacked⟩ :=
    run_insert_refused [] calls (.transform .encrypt [1]) (.nonceLength 0)
  exact ⟨hstream _ rfl, hpacked _ _ _ [] refusal rfl rfl rfl⟩

end Strongbox.Aead
