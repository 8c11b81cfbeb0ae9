import Strongbox.Aead.Session

/-!
# Records of histories

A stream and a session are run alike: a list of calls is answered one
after the other. The **record** of such a history is what an onlooker
sees of it, every call with its answer, and the laws of both are said of
records rather than of states.

`record_append` cuts a history in two, and `Stream.run_eq` and
`Session.run_eq` say that a run is its record and the state after it.

## States and records

A state has fields that no caller can see, and a law about a state is a
law about these fields. A record has nothing but calls and answers. To
say what a machine does, a record is enough, and it is what two machines
with different states can be compared by; to prove it, an invariant
about the state is carried along the record.

Both machines have a `step` that takes a state and a call and gives an
answer with the state after it. That function is a parameter here, so
that records of streams, of sessions and of their packed forms are the
same thing.
-/

namespace Strongbox.Aead

/-- **A call together with the answer to it.** The buffer that a call
was handed is part of the call, and the one that is left is part of the
answer. -/
structure Exchange (κ ε : Type) where
  /-- The call. -/
  call : κ
  /-- The answer to it. -/
  reply : Reply ε

variable {σ κ ε : Type}

/-- Whether the call was granted. Refusals are part of the record like
everything else. -/
def Exchange.succeeded (e : Exchange κ ε) : Bool := e.reply.outcome.isOk

section Record

variable (step : σ → κ → Reply ε × σ)

/-- **The record of a history** of calls that begins in a state. Each
answer is that of the state which the calls before have left. -/
def record (s : σ) : List κ → List (Exchange κ ε)
  | [] => []
  | call :: calls => ⟨call, (step s call).1⟩ :: record (step s call).2 calls

/-- The state after a history of calls. It is a fold, and does not look
at the answers. -/
def after (s : σ) (calls : List κ) : σ :=
  calls.foldl (fun s call => (step s call).2) s

@[simp] theorem after_nil (s : σ) : after step s [] = s := rfl

@[simp] theorem after_cons (s : σ) (call : κ) (calls : List κ) :
    after step s (call :: calls) = after step (step s call).2 calls := rfl

/-- A history may be cut anywhere: the second part goes on in the state
that the first one leaves. -/
theorem after_append (s : σ) (a b : List κ) :
    after step s (a ++ b) = after step (after step s a) b :=
  List.foldl_append

@[simp] theorem record_nil (s : σ) : record step s [] = [] := rfl

/-- **The record of a history cut in two** is that of the first part,
and behind it that of the second part from the state between them. -/
theorem record_append (s : σ) (a b : List κ) :
    record step s (a ++ b)
      = record step s a ++ record step (after step s a) b := by
  induction a generalizing s with
  | nil => rfl
  | cons call a ih =>
    show _ :: record step (step s call).2 (a ++ b) = _ :: _
    rw [ih]
    rfl

end Record

/-- A run of a stream is the answers of its record and the stream after
it. So a law about records is a law about runs. -/
theorem Stream.run_eq (s : Stream) (calls : List Stream.Call) :
    s.run calls
      = ((record Stream.step s calls).map Exchange.reply,
        after Stream.step s calls) := by
  induction calls generalizing s with
  | nil => rfl
  | cons call calls ih =>
    show (_ :: ((s.step call).2.run calls).1, ((s.step call).2.run calls).2) = _
    rw [ih]
    rfl

/-- A run of a session is the answers of its record and the session
after it. So a law about records is a law about runs. -/
theorem Session.run_eq (s : Session) (calls : List Session.Call) :
    s.run calls
      = ((record Session.step s calls).map Exchange.reply,
        after Session.step s calls) := by
  induction calls generalizing s with
  | nil => rfl
  | cons call calls ih =>
    show (_ :: ((s.step call).2.run calls).1, ((s.step call).2.run calls).2) = _
    rw [ih]
    rfl

end Strongbox.Aead
