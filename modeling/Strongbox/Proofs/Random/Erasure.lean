import Strongbox.Proofs.Random.Stream
import Strongbox.Random.Ledger

/-!
# What has been handed out is not kept

A `Drbg` holds 96 bytes and a cursor. The main statement,
`state_is_erased`, says what these bytes are after any history of calls,
by way of the `Ledger` of the same history, which forgets nothing: the
first 32 bytes of the latest output of the hash, then zeros up to the
cursor, and then exactly what has not been handed out of the block of
that output. So the bytes are the same whichever key the output was made
under – that key is not among them.

`Ledger.Erased` is the invariant, one equation for all 96 bytes. A word
is handed out at a multiple of four bytes, so that the cursor is at the
end exactly when nothing is left of the block
(`Erased.undelivered_eq_nil_iff`), and whole words are wiped, the last
one of a request too when only some of its bytes are used.

## Why a second machine

What is wiped cannot be read off the state, and a statement that
something is not kept needs a place where it is. The ledger is that
place: it has the whole output of which the state holds a part. That the
two answer alike, call by call, makes sure that it is the same output;
and that the state is a function of what the ledger has still to deliver
is what erasure comes to.

A key is replaced by a hash under it, so the key before the latest one
is not in the state unless the hash puts it there. The last part of the
statement says this without speaking of any property of the hash: two
pasts that lead to the same output, and have had as many words of it,
cannot be told apart by the state.
-/

namespace Strongbox.Random

namespace Ledger

/-- **A call to a ledger is a draw**, if it keeps the stream. It is
defined by words, like the answers of a generator. -/
theorem step_eq_draw [KeyedHash] (l : Ledger) {call : Drbg.Call}
    (h : call.keepsStream = true) :
    l.step call = draw word l call.size := by
  rw [draw, ← takeWords_eq_segment]
  cases call with
  | reseed label material => exact Bool.noConfusion h
  | word | wide | fill | describe => rfl

/-- **A generator that has erased what the ledger has handed out**: key,
zeros and what is left of the block make up its state. The first field
is the law; the others keep it from breaking at the end of a block. -/
structure Erased (l : Ledger) (d : Drbg) : Prop where
  /-- The state is the key, as many zeros as the cursor says, and what
  has not been handed out. -/
  state_eq : d.state = l.key ++ (Bytes.zeros d.cursor ++ l.undelivered)
  /-- The latest output has a key. -/
  length_key : l.key.length = Drbg.keyLength
  /-- As many blocks have been made. -/
  counter_eq : d.counter = l.counter
  /-- The cursor is between two words. -/
  aligned : Drbg.wordLength ∣ d.cursor
  /-- The cursor is in the block, or at its end. -/
  cursor_le : d.cursor ≤ Drbg.blockLength

namespace Erased

variable {l : Ledger} {d : Drbg}

/-! ## What can be seen of the state -/

/-- The key is the beginning of the state, and of the output it was
taken from. -/
theorem key_eq (h : Erased l d) : d.key = l.key := by
  unfold Drbg.key
  rw [h.state_eq, List.take_left' h.length_key]

/-- Behind the key there are zeros and then what is left of the block.
This is the law without the key in front. -/
theorem drop_state (h : Erased l d) :
    d.state.drop Drbg.keyLength = Bytes.zeros d.cursor ++ l.undelivered := by
  rw [h.state_eq, List.drop_left' h.length_key]

/-- What a generator has waiting is what the ledger has not delivered.
The next word of both is therefore the same. -/
theorem waiting_eq (h : Erased l d) : d.waiting = l.undelivered := by
  unfold Drbg.waiting
  rw [← List.drop_drop, h.drop_state, List.drop_left' (Bytes.length_zeros _)]

/-- **Every byte of the block before the cursor is wiped.** The zeros of
the state are as many as the cursor says. -/
theorem wiped (h : Erased l d) {i : Nat} (hi : i < d.cursor) :
    d.state[Drbg.keyLength + i]? = some 0 := by
  rw [← List.getElem?_drop, h.drop_state,
    List.getElem?_append_left (by rwa [Bytes.length_zeros]), Bytes.zeros,
    List.getElem?_replicate, if_pos hi]

/-- What is left of the block is as much as the cursor has not passed. -/
theorem length_undelivered (h : Erased l d) :
    l.undelivered.length = Drbg.blockLength - d.cursor := by
  rw [← h.waiting_eq, d.length_waiting]

/-- **The block is used up when the cursor leaves no room for a word.**
The cursor is between two words, so that there is never room for a part
of one. -/
theorem undelivered_eq_nil_iff (h : Erased l d) :
    l.undelivered.isEmpty = true
      ↔ d.cursor + Drbg.wordLength > Drbg.blockLength := by
  obtain ⟨k, hk⟩ := h.aligned
  have hle := h.cursor_le
  rw [List.isEmpty_iff_length_eq_zero, h.length_undelivered]
  simp only [Drbg.wordLength, Drbg.blockLength] at *
  omega

/-- How far the cursor is follows from what is left of the block. So the
state is a function of the ledger. -/
theorem cursor_eq (h : Erased l d) :
    d.cursor = Drbg.blockLength - l.undelivered.length := by
  rw [h.length_undelivered, Nat.sub_sub_self h.cursor_le]

/-! ## Words -/

/-- The next word of the block is no longer undelivered. One word more
counts as handed out. -/
theorem undelivered_takeWord (l : Ledger) :
    l.takeWord.2.undelivered = l.undelivered.drop Drbg.wordLength := by
  show l.block.drop (Drbg.wordLength * (l.handedOut + 1)) = _
  rw [undelivered, List.drop_drop, Nat.mul_succ]

/-- **A word is wiped as it is handed out.** The zeros go on by a word,
and what is left is shorter by a word. -/
theorem takeWord (h : Erased l d)
    (hroom : d.cursor + Drbg.wordLength ≤ Drbg.blockLength) :
    d.takeWord.1 = l.takeWord.1 ∧ Erased l.takeWord.2 d.takeWord.2 := by
  have hbefore : d.state.take (Drbg.keyLength + d.cursor)
    = l.key ++ Bytes.zeros d.cursor := by
    rw [h.state_eq, ← List.append_assoc, List.take_left']
    rw [List.length_append, h.length_key, Bytes.length_zeros]
  have hword : (Bytes.zeros Drbg.wordLength).length ≤ l.undelivered.length := by
    rw [Bytes.length_zeros, h.length_undelivered]
    exact Nat.le_sub_of_add_le' hroom
  have hbehind : Bytes.overwrite (Bytes.zeros Drbg.wordLength) d.waiting
      = Bytes.zeros Drbg.wordLength ++ l.takeWord.2.undelivered := by
    rw [h.waiting_eq, undelivered_takeWord, Bytes.overwrite,
      List.take_of_length_le hword,
      Bytes.length_zeros]
  refine ⟨?_, ?_, h.length_key, h.counter_eq,
    Nat.dvd_add h.aligned (Nat.dvd_refl _), hroom⟩
  · show UInt32.ofNat (Bytes.ofLittleEndian (d.waiting.take Drbg.wordLength))
      = _
    rw [h.waiting_eq]
    rfl
  · show d.state.take (Drbg.keyLength + d.cursor)
        ++ Bytes.overwrite (Bytes.zeros Drbg.wordLength) d.waiting
      = l.key ++ (Bytes.zeros (d.cursor + Drbg.wordLength)
          ++ l.takeWord.2.undelivered)
    rw [hbefore, hbehind, List.append_assoc,
      ← List.append_assoc (Bytes.zeros d.cursor),
      Bytes.zeros_append_zeros]

/-- A state that is a key and a wiped block, where the output was a key.
It is so after a seed and after each reseeding, where the output is no
longer than a key. -/
theorem of_key (houtput : l.output.length = Drbg.keyLength)
    (hstate : d.state = l.output ++ Bytes.zeros Drbg.blockLength)
    (hcounter : d.counter = l.counter) (hcursor : d.cursor = Drbg.blockLength) :
    Erased l d where
  state_eq := by
    have hblock : l.undelivered = [] := by
      rw [undelivered, block, List.drop_of_length_le (Nat.le_of_eq houtput),
        List.drop_nil]
    rw [hblock, List.append_nil, hcursor, key,
      List.take_of_length_le (Nat.le_of_eq houtput),
      hstate]
  length_key := by rw [key, List.length_take, houtput, Nat.min_self]
  counter_eq := hcounter
  aligned := by rw [hcursor]; decide
  cursor_le := Nat.le_of_eq hcursor

variable [KeyedHash]

/-- A generator of a seed has a key and a wiped block. -/
theorem ofSeed (seed : Bytes) :
    Erased (Ledger.ofSeed seed) (Drbg.ofSeed seed) :=
  of_key (KeyedHash.length_deriveKey ..) rfl rfl rfl

/-- **Reseeding** wipes what was left of the block. The new output is a
key, and there is nothing behind it. -/
theorem reseed (h : Erased l d) (label material : Bytes) :
    Erased (l.reseed label material) (d.reseed label material) := by
  refine of_key (KeyedHash.length_keyed ..) ?_ h.counter_eq rfl
  show KeyedHash.keyed d.key _ _ ++ _ = KeyedHash.keyed l.key _ _ ++ _
  rw [h.key_eq]

/-- **A new output takes the place of the old one**, key and block. The
cursor is at the beginning, and all of the block is to be delivered. -/
theorem refill (h : Erased l d) : Erased l.refill d.refill where
  state_eq := by
    have houtput : d.refill.state = l.refill.output := by
      show KeyedHash.keyed d.key (Drbg.refillInput d.counter) _
        = KeyedHash.keyed l.key _ _
      rw [h.key_eq, h.counter_eq]
    rw [houtput]
    exact (List.take_append_drop Drbg.keyLength l.refill.output).symm
  length_key := by
    show ((KeyedHash.keyed l.key (Drbg.refillInput l.counter)
          Drbg.stateLength).take _).length = _
    rw [List.length_take, KeyedHash.length_keyed]
    rfl
  counter_eq := congrArg (· + 1) h.counter_eq
  aligned := Nat.dvd_zero _
  cursor_le := Nat.zero_le _

/-- **The next word** is that of the ledger, and erased. The two ask in
different ways whether the block is used up, and
`undelivered_eq_nil_iff` says that they ask the same. -/
theorem word : Related (fun d l => Erased l d) Drbg.word Ledger.word := by
  intro d l h
  unfold Drbg.word Ledger.word
  by_cases hspent : d.cursor + Drbg.wordLength > Drbg.blockLength
  · rw [if_pos hspent, if_pos (h.undelivered_eq_nil_iff.mpr hspent)]
    -- A new block has room for a word.
    exact h.refill.takeWord
      (show 0 + Drbg.wordLength ≤ Drbg.blockLength by decide)
  · rw [if_neg hspent, if_neg (mt h.undelivered_eq_nil_iff.mp hspent)]
    exact h.takeWord (Nat.le_of_not_lt hspent)

/-- **What is drawn is that of the ledger**, and erased. The last word
is wiped as a whole, whatever is used of it. -/
theorem draw (h : Erased l d) (size : Nat) :
    (Random.draw Drbg.word d size).1 = (Random.draw Ledger.word l size).1
      ∧ Erased (Random.draw Ledger.word l size).2
        (Random.draw Drbg.word d size).2 := by
  obtain ⟨hwords, herased⟩ := word.takeWords (wordsFor size) h
  rw [takeWords_eq_segment, takeWords_eq_segment] at hwords
  exact ⟨congrArg (fun words => (words.flatMap Bytes.ofWord).take size) hwords,
    herased⟩

/-! ## Histories -/

/-- **Every call is answered with the bytes of the ledger**, and what it
hands out is erased. New material is a reseeding, and any other call is
a draw. -/
theorem step (h : Erased l d) (call : Drbg.Call) :
    (d.step call).1.output = (l.step call).1
      ∧ Erased (l.step call).2 (d.step call).2 := by
  -- All calls are draws on both sides, but for the one that brings new
  -- material.
  have hdraw (hkeeps : call.keepsStream = true) :
      (d.step call).1.output = (l.step call).1
        ∧ Erased (l.step call).2 (d.step call).2 := by
    have hdrawn := h.draw call.size
    rwa [← d.step_eq_draw hkeeps, ← l.step_eq_draw hkeeps] at hdrawn
  cases call with
  | reseed label material => exact ⟨rfl, h.reseed label material⟩
  | word | wide | fill | describe => exact hdraw rfl

/-- **The answers and the state after a history** are those of the
ledger. -/
theorem run (h : Erased l d) (calls : List Drbg.Call) :
    (d.run calls).1.map Drbg.Reply.output = (l.run calls).1
      ∧ Erased (l.run calls).2 (d.run calls).2 := by
  induction calls generalizing d l with
  | nil => exact ⟨rfl, h⟩
  | cons call calls ih =>
    obtain ⟨houtput, hnext⟩ := h.step call
    obtain ⟨houtputs, hlast⟩ := ih hnext
    exact ⟨List.cons_eq_cons.mpr ⟨houtput, houtputs⟩, hlast⟩

end Erased

/-- **What a generator keeps is erased of what it has handed out**,
after every history of calls and with any hash. It answers with the
random bytes of the ledger. Its state is 96 bytes with a cursor at a
multiple of four that is at most 64; the block is wiped before the
cursor, and from there on it is what the ledger has not delivered of its
block; and the key is that of the latest output, which no other key has
a part in: where the same output has come of another seed and another
history, and as many words of it have been handed out, the state is the
same. -/
theorem state_is_erased [KeyedHash] (seed : Bytes) (calls : List Drbg.Call) :
    let d := ((Drbg.ofSeed seed).run calls).2
    let l := ((Ledger.ofSeed seed).run calls).2
    ((Drbg.ofSeed seed).run calls).1.map Drbg.Reply.output
      = ((Ledger.ofSeed seed).run calls).1
      ∧ d.state.length = 96
      ∧ 4 ∣ d.cursor
      ∧ d.cursor ≤ 64
      ∧ (∀ i < d.cursor, d.state[32 + i]? = some 0)
      ∧ d.state.drop (32 + d.cursor) = l.undelivered
      ∧ d.state.take 32 = l.output.take 32
      ∧ ∀ (seed' : Bytes) (calls' : List Drbg.Call),
        let d' := ((Drbg.ofSeed seed').run calls').2
        let l' := ((Ledger.ofSeed seed').run calls').2
        l'.output = l.output → l'.handedOut = l.handedOut
          → d'.state = d.state := by
  intro d l
  obtain ⟨hreplies, h⟩ := (Erased.ofSeed seed).run calls
  refine ⟨hreplies, d.length_state, h.aligned, h.cursor_le, fun i => h.wiped,
    h.waiting_eq,
    h.key_eq, ?_⟩
  intro seed' calls' d' l' houtput hhanded
  have h' : Erased l' d' := ((Erased.ofSeed seed').run calls').2
  have hkey : l'.key = l.key := by rw [key, key, houtput]
  have hleft : l'.undelivered = l.undelivered := by
    rw [undelivered, undelivered, block, block, houtput, hhanded]
  rw [h'.state_eq, h.state_eq, h'.cursor_eq, h.cursor_eq, hkey, hleft]

/-- A hash that does not look at its key, and makes a key of how long
the material is. It is no good as a hash, and shows that nothing is
asked of one. -/
@[reducible] def keylessHash : KeyedHash where
  keyed _ _ n := List.replicate n 7
  deriveKey _ material n := List.replicate n (material.headD 0)
  length_keyed _ _ _ := List.length_replicate
  length_deriveKey _ _ _ := List.length_replicate

/-- Two keys, under which the hash gives the same block. Once a word of
it is there, the two cannot be told apart, and the word is wiped. One of
the seeds makes a key of ones, the other one of twos. -/
theorem state_is_erased_of_either_key :
    letI := keylessHash
    let first := Drbg.ofSeed [1]
    let second := Drbg.ofSeed [1, 2]
    first.key ≠ second.key
      ∧ (second.run [.word]).2.state = (first.run [.word]).2.state
      ∧ (first.run [.word]).2.state[32]? = some 0 := by
  let _ := keylessHash
  obtain ⟨-, -, -, -, hwiped, -, -, hsame⟩ := state_is_erased [1] [.word]
  exact ⟨by decide, hsame [1, 2] [.word] rfl rfl, hwiped 0 (by decide)⟩

end Ledger

end Strongbox.Random
