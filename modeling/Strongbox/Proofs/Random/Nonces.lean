import Strongbox.Proofs.Bytes
import Strongbox.Random.Clients

/-!
# The nonces of a session do not repeat

The counter in front of the nonces keeps 2³² consecutive ones apart, and
it does so alone: nothing is asked of the source of the random bytes
behind it. The main statement, `nonces_differ`, says so twice, for a
session that has a source of its own, whatever that source does, and for
one that draws from the one generator of a process, whatever clients do
to the generator between two of its turns – shutting it down,
configuring and reseeding it included.

`CountUpFrom` is what the nonces of a session have in common: at every
position the counter is the first one plus the position. A session is
begun by the one word that it draws as its counter; after that the
invariant goes from nonce to nonce (`CountUpFrom.cons`), and what is not
a turn of the session does not come into it (`Clients.turn_other`).

## Two halves

Counters less than 2³² apart are different numbers modulo 2³², and so
their four bytes are different, and the nonces with them. That is all
the arithmetic there is (`CountUpFrom.differ`). The other half is that a
session counts on without a break. With a source of its own this is an
induction over the nonces. On the one generator it is an induction over
the turns of all clients: a turn that is not one of the session leaves
its counter alone, and one that is gives it a nonce and goes on by one.

What the one generator does in a turn is not looked at. Whatever is
drawn from it as a counter is a number, and the nonces count up from it;
a generator that gave the same word for ever would do.
-/

namespace Strongbox.Random

/-! ## Counting -/

/-- **Nonces that count up from a word**: each begins with the word plus
its position, modulo 2³², least significant byte first. Nothing is said
of what follows the counter, not even that there is something. -/
def CountUpFrom (first : UInt32) (nonces : List Bytes) : Prop :=
  ∀ i nonce, nonces[i]? = some nonce →
    nonce.take counterLength
      = Bytes.littleEndian counterLength ((first.toNat + i) % 2 ^ 32)

/-- **Nonces of which no two are the same that are less than 2³²
apart.** It is the property that a user of nonces relies on. -/
def DifferWithinCycle (nonces : List Bytes) : Prop :=
  ∀ i j a b,
    nonces[i]? = some a → nonces[j]? = some b → i < j → j - i < 2 ^ 32 → a ≠ b

namespace CountUpFrom

variable {first : UInt32} {nonces : List Bytes}

theorem nil (first : UInt32) : CountUpFrom first [] := nofun

/-- **The next counter is one more.** The positions of all later nonces
move by one, and the word they count from is one more. -/
theorem cons (h : CountUpFrom (first + 1) nonces) (suffix : Bytes) :
    CountUpFrom first ((Bytes.ofWord first ++ suffix) :: nonces) := by
  intro i nonce hi
  cases i with
  | zero =>
    obtain rfl : Bytes.ofWord first ++ suffix = nonce := Option.some.inj hi
    have hcounter : (Bytes.ofWord first ++ suffix).take counterLength
      = Bytes.ofWord first :=
      List.take_left' (Bytes.length_ofWord first)
    rw [hcounter, Nat.add_zero, Nat.mod_eq_of_lt first.toNat_lt]
    rfl
  | succ i =>
    have hcounter : ((first + 1).toNat + i) % 2 ^ 32
      = (first.toNat + (i + 1)) % 2 ^ 32 := by
      rw [UInt32.toNat_add, Nat.mod_add_mod, Nat.add_assoc, Nat.add_comm i 1]
      rfl
    rw [h i nonce hi, hcounter]

/-- **Counters that are less than a cycle apart are different.** Equal
nonces would have equal counters, and these are numbers below 2³² that
differ by less. -/
theorem differ (h : CountUpFrom first nonces) : DifferWithinCycle nonces := by
  rintro i j a _ ha hb hij hcycle rfl
  have hcounter := (h i a ha).symm.trans (h j a hb)
  have hread := congrArg Bytes.ofLittleEndian hcounter
  rw [Bytes.ofLittleEndian_littleEndian, Bytes.ofLittleEndian_littleEndian]
    at hread
  simp only [counterLength] at hread
  omega

end CountUpFrom

/-! ## A session with a source of its own -/

namespace NonceSequence

variable {ρ : Type} [RandomSource ρ] {s : NonceSequence} {counter : UInt32}

/-- **The first nonce takes a word more**: with the counter drawn, the
sequence is one that has had nonces before. The word is drawn from the
source, which goes on behind it. -/
theorem next_of_none (h : s.counter? = none) (r : ρ) :
    s.next r = next { s with counter? := some (RandomSource.word r).1 }
      (RandomSource.word r).2 := by
  unfold next NonceSequence.counter
  rw [h]

/-- **A nonce is the counter and random bytes behind it.** The counter
of the nonce after it is one more. -/
theorem next_of_some (h : s.counter? = some counter) (r : ρ) :
    (s.next r).1
        = Bytes.ofWord counter
          ++ (RandomSource.fill r (s.length - counterLength)).1
      ∧ (s.next r).2.1 = { s with counter? := some (counter + 1) } := by
  unfold next NonceSequence.counter
  rw [h]
  exact ⟨rfl, rfl⟩

@[simp] theorem length_nexts (s : NonceSequence) (r : ρ) (count : Nat) :
    (s.nexts r count).1.length = count := by
  induction count generalizing s r with
  | zero => rfl
  | succ count ih => exact congrArg (· + 1) (ih _ _)

/-- **The nonces of a sequence that has its counter** count up from it,
by induction on their number. -/
theorem countUpFrom_nexts (h : s.counter? = some counter) (r : ρ)
    (count : Nat) :
    CountUpFrom counter (s.nexts r count).1 := by
  induction count generalizing s counter r with
  | zero => exact .nil counter
  | succ count ih =>
    obtain ⟨hnonce, hnext⟩ := next_of_some h r
    show CountUpFrom counter
      ((s.next r).1 :: ((s.next r).2.1.nexts (s.next r).2.2 count).1)
    rw [hnonce, hnext]
    exact .cons (ih rfl _) _

/-- **The first word of the source is where the nonces count from.** A
sequence that is asked for no nonce has drawn nothing, and there is
nothing to count. -/
theorem countUpFrom_nexts_start (length : Nat) (r : ρ) (count : Nat) :
    CountUpFrom (RandomSource.word r).1 ((start length).nexts r count).1 := by
  cases count with
  | zero => exact .nil _
  | succ count =>
    have hfirst : (start length).nexts r (count + 1)
        = nexts ⟨length, some (RandomSource.word r).1⟩ (RandomSource.word r).2
          (count + 1) := by
      unfold nexts
      rw [next_of_none rfl]
      rfl
    rw [hfirst]
    exact countUpFrom_nexts rfl _ _

end NonceSequence

/-! ## Sessions on the one generator -/

namespace Clients

variable {κ : Type} [DecidableEq κ] {client : κ} {session : Nat}
  {counter : UInt32}

/-- Who had what is told turn by turn. It is the form in which the
induction over turns takes one off. -/
theorem run_cons (c : Clients κ) (k : κ) (t : Turn) (turns : List (κ × Turn)) :
    (c.run ((k, t) :: turns)).1
      = [(k, (c.turn k t).1)] ++ ((c.turn k t).2.run turns).1 := rfl

theorem noncesOf_append (answers later : List (κ × Answer)) :
    noncesOf client session (answers ++ later)
      = noncesOf client session answers ++ noncesOf client session later :=
  List.filterMap_append

theorem countersOf_append (answers later : List (κ × Answer)) :
    countersOf client session (answers ++ later)
      = countersOf client session answers ++ countersOf client session later :=
  List.filterMap_append

/-- **A turn that is not one of the session** neither gives it anything
nor changes it. Another client, another session and any call to the
generator are all of this kind. -/
theorem turn_other (c : Clients κ) (k : κ) (t : Turn)
    (h : ¬(k = client ∧ t = .nonce session)) :
    (c.turn k t).2.sessions client session = c.sessions client session
      ∧ noncesOf client session [(k, (c.turn k t).1)] = []
      ∧ countersOf client session [(k, (c.turn k t).1)] = [] := by
  cases t with
  | call call => exact ⟨rfl, rfl, rfl⟩
  | nonce i =>
    have hother : ¬(k = client ∧ i = session) :=
      fun ⟨hk, hi⟩ => h ⟨hk, hi ▸ rfl⟩
    have hstays : ¬(client = k ∧ session = i) :=
      fun ⟨hk, hi⟩ => hother ⟨hk.symm, hi.symm⟩
    cases hcounter : (c.sessions k i).counter? with
    | none =>
      rw [c.turn_nonce_of_none hcounter]
      exact ⟨if_neg hstays, rfl, congrArg Option.toList (if_neg hother)⟩
    | some counter =>
      rw [c.turn_nonce_of_some hcounter]
      exact ⟨if_neg hstays, congrArg Option.toList (if_neg hother), rfl⟩

/-- **The first turn of a session** draws its counter. It gets no nonce
yet: the random bytes come in a turn of their own. -/
theorem turn_of_none (c : Clients κ)
    (h : (c.sessions client session).counter? = none) :
    ∃ counter,
      noncesOf client session [(client, (c.turn client (.nonce session)).1)]
          = []
      ∧ countersOf client session [(client, (c.turn client (.nonce session)).1)]
        = [counter]
      ∧ ((c.turn client (.nonce session)).2.sessions client session).counter?
        = some counter := by
  rw [c.turn_nonce_of_none h]
  refine ⟨c.shared.word.1, rfl, congrArg Option.toList (if_pos ⟨rfl, rfl⟩), ?_⟩
  exact congrArg NonceSequence.counter? (if_pos ⟨rfl, rfl⟩)

/-- **Every later turn of a session** gives it the nonce of its counter.
The random bytes are whatever the generator gives. -/
theorem turn_of_some (c : Clients κ)
    (h : (c.sessions client session).counter? = some counter) :
    (∃ suffix,
        noncesOf client session [(client, (c.turn client (.nonce session)).1)]
          = [Bytes.ofWord counter ++ suffix])
      ∧ countersOf client session [(client, (c.turn client (.nonce session)).1)]
        = []
      ∧ ((c.turn client (.nonce session)).2.sessions client session).counter?
        = some (counter + 1) := by
  rw [c.turn_nonce_of_some h]
  refine ⟨⟨(c.shared.fill
      ((c.sessions client session).length - counterLength)).1,
    congrArg Option.toList (if_pos ⟨rfl, rfl⟩)⟩, rfl, ?_⟩
  exact congrArg NonceSequence.counter? (if_pos ⟨rfl, rfl⟩)

/-- **A session that has a counter counts on**, whatever else happens.
No counter is drawn any more. -/
theorem countUpFrom_run (c : Clients κ)
    (h : (c.sessions client session).counter? = some counter)
    (turns : List (κ × Turn)) :
    CountUpFrom counter (noncesOf client session (c.run turns).1)
      ∧ countersOf client session (c.run turns).1 = [] := by
  -- The counter is another one after each turn of the session, and after no
  -- other turn.
  induction turns generalizing c counter with
  | nil => exact ⟨.nil counter, rfl⟩
  | cons first turns ih =>
    obtain ⟨k, t⟩ := first
    rw [run_cons, noncesOf_append, countersOf_append]
    by_cases hown : k = client ∧ t = .nonce session
    · obtain ⟨rfl, rfl⟩ := hown
      obtain ⟨⟨suffix, hnonce⟩, hcounters, hnext⟩ := c.turn_of_some h
      obtain ⟨hlater, hnone⟩ := ih _ hnext
      rw [hnonce, hcounters, hnone]
      exact ⟨hlater.cons suffix, rfl⟩
    · obtain ⟨hsession, hnonces, hcounters⟩ := c.turn_other k t hown
      rw [hnonces, hcounters]
      exact ih _ (hsession ▸ h)

/-- **A session draws one counter**, with its first turn, and counts on
from it. Before its first turn it has nothing, and it may never have
one. -/
theorem countUpFrom_run_start (c : Clients κ)
    (h : (c.sessions client session).counter? = none)
    (turns : List (κ × Turn)) :
    (noncesOf client session (c.run turns).1 = []
        ∧ countersOf client session (c.run turns).1 = [])
      ∨ ∃ counter, countersOf client session (c.run turns).1 = [counter]
        ∧ CountUpFrom counter (noncesOf client session (c.run turns).1) := by
  induction turns generalizing c with
  | nil => exact .inl ⟨rfl, rfl⟩
  | cons first turns ih =>
    obtain ⟨k, t⟩ := first
    rw [run_cons, noncesOf_append, countersOf_append]
    by_cases hown : k = client ∧ t = .nonce session
    · obtain ⟨rfl, rfl⟩ := hown
      obtain ⟨counter, hnonces, hcounters, hnext⟩ := c.turn_of_none h
      obtain ⟨hlater, hnone⟩ := countUpFrom_run _ hnext turns
      rw [hnonces, hcounters, hnone]
      exact .inr ⟨counter, rfl, hlater⟩
    · obtain ⟨hsession, hnonces, hcounters⟩ := c.turn_other k t hown
      rw [hnonces, hcounters]
      exact ih _ (hsession ▸ h)

end Clients

/-! ## The law -/

/-- **No two nonces of a session are the same that are less than 2³²
apart**, for nonces of any length. With a source of its own, whatever it
answers, a session has as many nonces as are asked for, and they count
up from the first word of the source. On the one generator of a process,
a session has drawn nothing, or one counter from which its nonces count
up, after any turns of any clients. -/
theorem nonces_differ (length : Nat) :
    (∀ (ρ : Type) [RandomSource ρ] (r : ρ) (count : Nat),
      let nonces := ((NonceSequence.start length).nexts r count).1
      nonces.length = count
        ∧ CountUpFrom (RandomSource.word r).1 nonces
        ∧ DifferWithinCycle nonces)
    ∧ ∀ (κ : Type) [DecidableEq κ] (c : Clients κ) (client : κ) (session : Nat),
      c.sessions client session = NonceSequence.start length →
      ∀ turns : List (κ × Turn),
        let nonces := noncesOf client session (c.run turns).1
        let counters := countersOf client session (c.run turns).1
        (nonces = [] ∧ counters = [])
          ∨ ∃ counter, counters = [counter]
            ∧ CountUpFrom counter nonces
            ∧ DifferWithinCycle nonces := by
  constructor
  · intro ρ _ r count nonces
    have h := NonceSequence.countUpFrom_nexts_start length r count
    exact ⟨NonceSequence.length_nexts _ r count, h, h.differ⟩
  · intro κ _ c client session hstart turns nonces counters
    have hnone : (c.sessions client session).counter? = none := by
      rw [hstart]; rfl
    obtain h | ⟨counter, hcounters, h⟩ := c.countUpFrom_run_start hnone turns
    · exact .inl h
    · exact .inr ⟨counter, hcounters, h, h.differ⟩

/-- A source that plays one word for ever, and a session that goes on
after another client has shut the generator down. -/
theorem nonces_differ_after_shutdown :
    let constant := ((NonceSequence.start 12).nexts (Cycle.ofList [7]) 2).1
    let host : Host := ⟨Feed.ofList [] ⟨0, 0⟩, Feed.ofList [] (.failure 5)⟩
    let c : Clients Bool :=
      ⟨SharedRng.start host, fun _ _ => NonceSequence.start 12⟩
    let turns := [(false, .nonce 0), (true, .nonce 0), (false, .nonce 0),
      (true, .call .shutdown), (false, .nonce 0)]
    let shared := noncesOf false 0 (c.run turns).1
    constant[0]? ≠ constant[1]? ∧ shared[0]? ≠ shared[1]? := by
  intro constant host c turns shared
  obtain ⟨-, -, hconstant⟩ := (nonces_differ 12).1 Cycle (Cycle.ofList [7]) 2
  have hshared := (nonces_differ 12).2 Bool c false 0 rfl turns
  constructor
  · intro h
    exact hconstant 0 1 _ _ rfl rfl Nat.one_pos (by decide) (Option.some.inj h)
  · intro h
    obtain ⟨hnil, -⟩ | ⟨counter, -, -, hdiffer⟩ := hshared
    · exact List.cons_ne_nil _ _ hnil
    · exact hdiffer 0 1 _ _ rfl rfl Nat.one_pos (by decide) (Option.some.inj h)

end Strongbox.Random
