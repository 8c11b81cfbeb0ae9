import Strongbox.Random.SharedRng

/-!
# Clients of the one generator

Any number of clients draw from the one generator of a process, each
with as many sessions of nonces as it likes. What they do at the same
time comes down to a list of turns in the order in which the lock was
taken, since nothing happens to the generator without it. Of that order
nothing is assumed, so that the lists of turns are all interleavings of
all that clients may do.

A request takes the lock once, and a guard once for all its calls. Only
the first nonce of a session takes it twice: for the counter, and then
for the random bytes. In between the lock is free, and other clients may
have their turns.

## Sessions

A session belongs to one client and is told by a number. A client may
have as many as it likes, and each of them begins without a counter.
What a turn does to a session is what `NonceSequence.next` does, cut in
two where the lock is free: the counter of the first nonce in one turn,
the random bytes in the next. A session that is not asked any more after
its counter has been drawn has drawn a word that nobody gets; such lists
of turns are among those that are looked at.

## Answers

The answers are told together with the client that has them, in the
order of the turns. `noncesOf` and `countersOf` pick out what one
session of one client has had, which is what the statements about nonces
speak of.
-/

namespace Strongbox.Random

/-- **What a client does in one turn** under the lock. Everything that
changes the one generator is one of the two. -/
inductive Turn where
  /-- Makes a call to the one generator. -/
  | call (call : SharedRng.Call)
  /-- Goes on with the next nonce of one of its sessions: with the
  counter, if the session has none yet, and otherwise with the random
  bytes, which complete the nonce. -/
  | nonce (session : Nat)

/-- **What a client has of a turn.** The counter of a session is an
answer of its own, since it is drawn in a turn of its own. -/
inductive Answer where
  /-- The answer to a call. -/
  | reply (reply : SharedRng.Reply)
  /-- The counter of the first nonce of a session. -/
  | counter (session : Nat) (value : UInt32)
  /-- A nonce of a session. -/
  | nonce (session : Nat) (value : Bytes)

/-- **The one generator and the sessions of its clients**, who are named
by a type of names. The sessions are a function, so that no client has
to be announced. -/
structure Clients (κ : Type) where
  /-- The one generator. -/
  shared : SharedRng
  /-- The sessions of every client, by number. -/
  sessions : κ → Nat → NonceSequence

namespace Clients

variable {κ : Type} [DecidableEq κ]

/-- A session of a client, with another state. Every other session of
every client stays. -/
def withSession (c : Clients κ) (client : κ) (session : Nat)
    (s : NonceSequence) : Clients κ :=
  { c with
    sessions :=
      fun k i => if k = client ∧ i = session then s else c.sessions k i }

/-- **Gives a client its turn.** A turn is all that happens between two
takings of the lock. -/
def turn (c : Clients κ) (client : κ) : Turn → Answer × Clients κ
  | .call call =>
    let (reply, shared) := c.shared.step call
    (.reply reply, { c with shared })
  | .nonce session =>
    let s := c.sessions client session
    match s.counter? with
    | none =>
      let (counter, shared) := s.counter c.shared
      (.counter session counter,
        withSession { c with shared } client session
          { s with counter? := some counter })
    | some _ =>
      let (nonce, s, shared) := s.next c.shared
      (.nonce session nonce, withSession { c with shared } client session s)

/-- A session that has no counter draws one. Its nonce is not there
before its next turn. -/
theorem turn_nonce_of_none (c : Clients κ) {client : κ} {session : Nat}
    (h : (c.sessions client session).counter? = none) :
    c.turn client (.nonce session)
      = (.counter session c.shared.word.1,
          withSession { c with shared := c.shared.word.2 } client session
            { c.sessions client session with
              counter? := some c.shared.word.1 }) := by
  simp only [turn, NonceSequence.counter, h]
  rfl

/-- A session that has a counter draws the rest of the nonce. The
counter goes up by one, and the random bytes stand behind it. -/
theorem turn_nonce_of_some (c : Clients κ) {client : κ} {session : Nat}
    {counter : UInt32}
    (h : (c.sessions client session).counter? = some counter) :
    c.turn client (.nonce session)
      = let (suffix, shared) := c.shared.fill
          ((c.sessions client session).length - counterLength)
        (.nonce session (Bytes.ofWord counter ++ suffix),
          withSession { c with shared } client session
            { c.sessions client session with
              counter? := some (counter + 1) }) := by
  simp only [turn, NonceSequence.next, NonceSequence.counter, h]
  rfl

/-- **Gives clients their turns**, one after another: who had what, and
how things are after it. Nothing is assumed of their order. -/
def run (c : Clients κ) : List (κ × Turn) → List (κ × Answer) × Clients κ
  | [] => ([], c)
  | (client, turn) :: turns =>
    let (answer, c) := c.turn client turn
    let (answers, c) := run c turns
    ((client, answer) :: answers, c)

end Clients

/-- The nonces of one session of one client, in order. The turns of
others, and those of other sessions, are passed over. -/
def noncesOf {κ : Type} [DecidableEq κ] (client : κ) (session : Nat)
    (answers : List (κ × Answer)) : List Bytes :=
  answers.filterMap fun
    | (k, .nonce i value) =>
      if k = client ∧ i = session then some value else none
    | _ => none

/-- The counters that one session of one client has drawn. There is one
of them at the most. -/
def countersOf {κ : Type} [DecidableEq κ] (client : κ) (session : Nat)
    (answers : List (κ × Answer)) : List UInt32 :=
  answers.filterMap fun
    | (k, .counter i value) =>
      if k = client ∧ i = session then some value else none
    | _ => none

end Strongbox.Random
