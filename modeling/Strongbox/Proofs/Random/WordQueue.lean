import Strongbox.Proofs.Bytes
import Strongbox.Random.WordQueue

/-!
# The generator hands out the words of a queue

A `Drbg` keeps a block and a cursor, reads words out of the block in
place and wipes them; a `WordQueue` has a list of words, and takes the
first. The main statement, `run_replies_eq`, says that the two answer
every history of calls alike: words, 64-bit words, bytes and reseedings,
wherever they fall in a block.

`WordQueue.Behind` is the relation between them. The words that are
waiting are those behind the cursor, and since the cursor is at a
multiple of four, the block is used up exactly when there is no word
left. What is before the cursor does not count, and so wiping it makes
no difference.

All requests are made of words. If the next word is the same and related
sources stay related, then so it is for any number of words
(`Related.takeWords`), of which the bytes are the beginning; and a
64-bit word is two of them read as one number.

## Two ways of writing a number

The queue is a reference of its own and writes its numbers by the place
of each byte, while the generator writes them with `Bytes.littleEndian`.
`bytesOf_eq` is where the two meet, and the only place: by it the three
strings that are hashed are the same, and nothing else has to be known
of them. If one of the strings, a length or the context were another on
one side, the lemmas about `ofSeed`, `reseed` and `refill` would be the
ones to break.

The hash is any `KeyedHash`. What comes out of it is compared as a key
and as words, and the two sides never see more of it than that.
-/

namespace Strongbox.Random

/-! ## Requests made of words -/

section Related

variable {ρ σ : Type}

/-- **Two sources of words that go the same way**: from related states
both hand out the same word, and are related again. It is the step of a
bisimulation, for sources that do nothing but hand out words. -/
def Related (R : ρ → σ → Prop) (next : ρ → UInt32 × ρ)
    (next' : σ → UInt32 × σ) : Prop :=
  ∀ r s, R r s → (next r).1 = (next' s).1 ∧ R (next r).2 (next' s).2

variable {R : ρ → σ → Prop} {next : ρ → UInt32 × ρ} {next' : σ → UInt32 × σ}

/-- **Related sources hand out the same words**, however many, and are
related after them. By induction on their number, from the first word
on. -/
theorem Related.takeWords (h : Related R next next') (count : Nat) {r : ρ}
    {s : σ} (hrs : R r s) :
    (takeWords next count r).1 = (takeWords next' count s).1
      ∧ R (takeWords next count r).2 (takeWords next' count s).2 := by
  induction count generalizing r s with
  | zero => exact ⟨rfl, hrs⟩
  | succ count ih =>
    obtain ⟨hword, hnext⟩ := h r s hrs
    obtain ⟨hwords, hlast⟩ := ih hnext
    rw [takeWords_succ, takeWords_succ]
    exact ⟨List.cons_eq_cons.mpr ⟨hword, hwords⟩, hlast⟩

end Related

/-- Two words side by side are a number with the second one high. The
generator puts them together by bits and the queue by arithmetic. -/
theorem shiftLeft_or_eq_ofNat (low high : UInt32) :
    (high.toUInt64 <<< 32) ||| low.toUInt64
      = UInt64.ofNat (low.toNat + 0x100000000 * high.toNat) := by
  have hlow : low.toNat < 2 ^ 32 := low.toNat_lt
  have hhigh : high.toNat < 2 ^ 32 := high.toNat_lt
  refine UInt64.toNat_inj.mp ?_
  rw [UInt64.toNat_or, UInt64.toNat_shiftLeft, UInt32.toNat_toUInt64,
    UInt32.toNat_toUInt64,
    UInt64.toNat_ofNat']
  show high.toNat <<< 32 % 2 ^ 64 ||| low.toNat = _
  rw [Nat.mod_eq_of_lt (by rw [Nat.shiftLeft_eq]; omega),
    ← Nat.shiftLeft_add_eq_or_of_lt hlow,
    Nat.shiftLeft_eq]
  omega

/-! ## Numbers in bytes -/

namespace WordQueue

/-- **The two ways of writing a number** give the same bytes: the one
that goes by the place of each byte and the one that goes on with the
quotient. It is enough to compare them place by place, since both have
the width as their length. -/
theorem bytesOf_eq (w n : Nat) : bytesOf w n = Bytes.littleEndian w n := by
  unfold bytesOf
  refine List.ext_getElem? fun i => ?_
  obtain hi | hi := Nat.lt_or_ge i w
  · have hshift : n >>> (8 * i) = n / 256 ^ i := by
      rw [Nat.shiftRight_eq_div_pow, Nat.pow_mul]
    rw [Bytes.getElem?_littleEndian hi, List.getElem?_map,
      List.getElem?_range hi, Option.map_some, hshift]
  · rw [List.getElem?_eq_none (by simpa using hi),
      List.getElem?_eq_none (by simpa using hi)]

/-- The bytes of a word stand in their places. This is the form in which
the bytes of an answer are compared. -/
theorem bytesOf_four (w : UInt32) : bytesOf 4 w.toNat = Bytes.ofWord w :=
  bytesOf_eq 4 w.toNat

/-- As many words as there are, less than a word left out. The block of
a generator has no such rest, but an empty one counts too. -/
theorem wordsOf_of_lt {bytes : Bytes} (h : bytes.length < Drbg.wordLength) :
    wordsOf bytes = [] := by
  match bytes, h with
  | [], _ | [_], _ | [_, _], _ | [_, _, _], _ => rfl

/-- **The first word of some bytes** is made of the first four, read
with the least significant one first. The others are those of what is
behind them. -/
theorem wordsOf_of_le {bytes : Bytes}
    (h : Drbg.wordLength ≤ bytes.length) :
    wordsOf bytes
      = UInt32.ofNat (Bytes.ofLittleEndian (bytes.take Drbg.wordLength))
        :: wordsOf (bytes.drop Drbg.wordLength) := by
  match bytes, h with
  | a :: b :: c :: d :: rest, _ =>
    have hread : Bytes.ofLittleEndian [a, b, c, d]
        = a.toNat + 256 * b.toNat + 65536 * c.toNat + 16777216 * d.toNat := by
      show a.toNat
        + 256 * (b.toNat + 256 * (c.toNat + 256 * (d.toNat + 256 * 0))) = _
      omega
    show UInt32.ofNat _ :: wordsOf rest
      = UInt32.ofNat (Bytes.ofLittleEndian [a, b, c, d]) :: wordsOf rest
    rw [hread]

/-! ## Block and queue -/

/-- **A generator that is behind a queue**: the same key, the same
counter, and the words waiting in the queue are those behind the cursor.
The block and the bytes before the cursor are not in it, which is why
wiping cannot show. -/
structure Behind (d : Drbg) (q : WordQueue) : Prop where
  /-- The key is the same. -/
  key_eq : d.key = q.key
  /-- As many blocks have been made. -/
  counter_eq : d.counter = q.counter
  /-- The cursor is in the block, or at its end. -/
  cursor_le : d.cursor ≤ Drbg.blockLength
  /-- The cursor is between two words. -/
  aligned : Drbg.wordLength ∣ d.cursor
  /-- What is behind the cursor is what is waiting. -/
  words_eq : q.words = wordsOf d.waiting

variable {d : Drbg} {q : WordQueue}

/-- Nothing is waiting in a generator whose block is used up. The cursor
is then at the end of the block. -/
theorem wordsOf_waiting_of_spent (hcursor : d.cursor = Drbg.blockLength) :
    wordsOf d.waiting = [] := by
  refine wordsOf_of_lt ?_
  rw [d.length_waiting, hcursor, Nat.sub_self]
  decide

/-- A generator whose block is used up is behind an empty queue. This is
the state after a seed and after each reseeding. -/
theorem Behind.of_spent (hkey : d.key = q.key)
    (hcounter : d.counter = q.counter) (hcursor : d.cursor = Drbg.blockLength)
    (hwords : q.words = []) : Behind d q where
  key_eq := hkey
  counter_eq := hcounter
  cursor_le := Nat.le_of_eq hcursor
  aligned := by rw [hcursor]; decide
  words_eq := hwords.trans (wordsOf_waiting_of_spent hcursor).symm

/-- Wiping a word leaves the key alone. The key stands before the block,
and the word inside it. -/
theorem key_takeWord (d : Drbg) : d.takeWord.2.key = d.key := by
  have hkey : Drbg.keyLength
    ≤ (d.state.take (Drbg.keyLength + d.cursor)).length := by
    rw [List.length_take, d.length_state]
    exact Nat.le_min.mpr ⟨Nat.le_add_right .., Nat.le_add_right ..⟩
  show (d.state.take (Drbg.keyLength + d.cursor) ++ _).take Drbg.keyLength
    = d.state.take Drbg.keyLength
  rw [List.take_append_of_le_length hkey, List.take_take,
    Nat.min_eq_left (Nat.le_add_right ..)]

/-- **Wiping a word leaves what is behind it alone**: the bytes that are
wiped stand before the cursor afterwards. So the words behind the cursor
go on as they were. -/
theorem waiting_takeWord (hcursor : d.cursor ≤ Drbg.blockLength) :
    d.takeWord.2.waiting = d.waiting.drop Drbg.wordLength := by
  have hbefore : (d.state.take (Drbg.keyLength + d.cursor)).length
      = Drbg.keyLength + d.cursor := by
    rw [List.length_take, d.length_state]
    exact Nat.min_eq_left (Nat.add_le_add_left hcursor _)
  show (d.state.take (Drbg.keyLength + d.cursor)
      ++ Bytes.overwrite (Bytes.zeros Drbg.wordLength) d.waiting).drop
        (Drbg.keyLength + (d.cursor + Drbg.wordLength)) = _
  rw [← Nat.add_assoc, ← List.drop_drop, List.drop_left' hbefore]
  exact Bytes.drop_overwrite (Bytes.zeros Drbg.wordLength) d.waiting

/-- **A word from the block**, when one is left. It is the first of
those waiting in the queue, and the others stay. -/
theorem Behind.takeWord (h : Behind d q)
    (hroom : d.cursor + Drbg.wordLength ≤ Drbg.blockLength) :
    ∃ rest, q.words = d.takeWord.1 :: rest
      ∧ Behind d.takeWord.2 { q with words := rest } := by
  have hleft : Drbg.wordLength ≤ d.waiting.length := by
    rw [d.length_waiting]
    omega
  refine ⟨_, h.words_eq.trans (wordsOf_of_le hleft),
    (key_takeWord d).trans h.key_eq,
    h.counter_eq, hroom, Nat.dvd_add h.aligned (Nat.dvd_refl _), ?_⟩
  rw [waiting_takeWord h.cursor_le]

variable [KeyedHash]

/-- **The first key** is the hash of one string in one context, and both
sides have all of their words still to make. The string is the length
and the material, and the context is the same text on both sides. -/
theorem Behind.ofSeed (seed : Bytes) :
    Behind (Drbg.ofSeed seed) (ofSeed seed) := by
  refine of_spent ?_ rfl rfl rfl
  refine (List.take_left' (KeyedHash.length_deriveKey ..)).trans ?_
  show _ = KeyedHash.deriveKey _ (bytesOf 8 seed.length ++ seed) 32
  rw [bytesOf_eq]
  rfl

/-- **Reseeding** gives up what is left of the block, and of the queue.
The label, the length and the material are hashed under a key that is
the same on both sides before. -/
theorem Behind.reseed (h : Behind d q) (label material : Bytes) :
    Behind (d.reseed label material) (q.reseed label material) := by
  refine of_spent ?_ h.counter_eq rfl rfl
  refine (List.take_left' (KeyedHash.length_keyed ..)).trans ?_
  show _ = KeyedHash.keyed q.key
    (label ++ bytesOf 8 material.length ++ material) 32
  rw [h.key_eq, bytesOf_eq]
  rfl

/-- **A new block is a new queue.** One output is cut in two: the key in
front, and a block that is read as sixteen words. -/
theorem Behind.refill (h : Behind d q) : Behind d.refill q.refill := by
  have houtput : d.refill.state
      = KeyedHash.keyed q.key (bytesOf 8 q.counter.toNat) 96 := by
    rw [← h.key_eq, ← h.counter_eq, bytesOf_eq]
    rfl
  refine ⟨congrArg (List.take Drbg.keyLength) houtput,
    congrArg (· + 1) h.counter_eq,
    Nat.zero_le _, Nat.dvd_zero _, ?_⟩
  show _ = wordsOf (d.refill.state.drop Drbg.keyLength)
  rw [houtput]
  rfl

/-- A word from an empty queue is the first of the queue filled anew.
This is how an empty queue answers, once it is known what it is filled
with. -/
theorem word_of_nil (hq : q.words = []) {word : UInt32} {rest : List UInt32}
    (hr : q.refill.words = word :: rest) :
    q.word = (word, { q.refill with words := rest }) := by
  unfold WordQueue.word
  rw [hq]
  show (q.refill.words.headD 0, { q.refill with words := q.refill.words.tail })
    = _
  rw [hr]
  rfl

/-- **The next word** is the same. The cursor is at a multiple of four,
so that the block is used up exactly when nothing is waiting. -/
theorem Behind.word : Related Behind Drbg.word word := by
  intro d q h
  unfold Drbg.word
  by_cases hroom : d.cursor + Drbg.wordLength > Drbg.blockLength
  · rw [if_pos hroom]
    have hend : d.cursor = Drbg.blockLength := by
      obtain ⟨k, hk⟩ := h.aligned
      have hle := h.cursor_le
      simp only [Drbg.wordLength, Drbg.blockLength] at *
      omega
    have hempty : q.words = [] := by
      rw [h.words_eq, wordsOf_waiting_of_spent hend]
    -- Both sides fill up, and a new block has room for a word.
    have hfresh : d.refill.cursor + Drbg.wordLength ≤ Drbg.blockLength := by
      show 0 + Drbg.wordLength ≤ Drbg.blockLength
      decide
    obtain ⟨rest, hwords, hnext⟩ := h.refill.takeWord hfresh
    rw [word_of_nil hempty hwords]
    exact ⟨rfl, hnext⟩
  · rw [if_neg hroom]
    obtain ⟨rest, hwords, hnext⟩ := h.takeWord (Nat.le_of_not_lt hroom)
    have hword : q.word = (d.takeWord.1, { q with words := rest }) := by
      unfold WordQueue.word
      rw [hwords]
    rw [hword]
    exact ⟨rfl, hnext⟩

/-! ## Histories -/

/-- **The next 64-bit word** is the same. Both sides take two words, the
first one low. -/
theorem Behind.wide (h : Behind d q) :
    d.wide.1 = q.wide.1 ∧ Behind d.wide.2 q.wide.2 := by
  obtain ⟨hlow, hmid⟩ := Behind.word d q h
  obtain ⟨hhigh, hlast⟩ := Behind.word _ _ hmid
  refine ⟨?_, hlast⟩
  show (d.word.2.word.1.toUInt64 <<< 32) ||| d.word.1.toUInt64 = _
  rw [hlow, hhigh, shiftLeft_or_eq_ofNat]
  rfl

/-- The words of a queue are taken as those of any source are. So what
is known of sources of words is known of a queue. -/
theorem take_eq_takeWords (q : WordQueue) (count : Nat) :
    q.take count = takeWords WordQueue.word count q := by
  induction count generalizing q with
  | zero => rfl
  | succ count ih =>
    rw [takeWords_succ, ← ih]
    rfl

/-- **The bytes of a queue** are the beginning of the words that cover
them, as those of a generator are. The queue cuts them out of the bytes
of all words at once. -/
theorem fill_eq_take (q : WordQueue) (n : Nat) :
    q.fill n
      = (((takeWords WordQueue.word (wordsFor n) q).1.flatMap
          Bytes.ofWord).take n,
        (takeWords WordQueue.word (wordsFor n) q).2) := by
  rw [← take_eq_takeWords]
  unfold WordQueue.fill wordsFor
  rw [funext bytesOf_four]

/-- **A number of bytes** is the same: they are the first ones of the
words that cover it. A word that is begun is lost on both sides. -/
theorem Behind.fill (h : Behind d q) (n : Nat) :
    (d.fill n).1 = (q.fill n).1 ∧ Behind (d.fill n).2 (q.fill n).2 := by
  obtain ⟨hwords, hlast⟩ := Behind.word.takeWords (wordsFor n) h
  unfold Drbg.fill
  rw [fillFrom_eq, fill_eq_take]
  exact ⟨congrArg (fun words => (words.flatMap Bytes.ofWord).take n) hwords,
    hlast⟩

/-- **Every call is answered alike**, and the queue is behind the
generator again afterwards. There is one case for every call. -/
theorem Behind.step (h : Behind d q) (call : Drbg.Call) :
    (d.step call).1 = (q.step call).1
      ∧ Behind (d.step call).2 (q.step call).2 := by
  cases call with
  | word =>
    obtain ⟨hword, hnext⟩ := Behind.word d q h
    exact ⟨congrArg Drbg.Reply.word hword, hnext⟩
  | wide =>
    obtain ⟨hwide, hnext⟩ := h.wide
    exact ⟨congrArg Drbg.Reply.wide hwide, hnext⟩
  | fill n =>
    obtain ⟨hbytes, hnext⟩ := h.fill n
    exact ⟨congrArg Drbg.Reply.bytes hbytes, hnext⟩
  | reseed label material => exact ⟨rfl, h.reseed label material⟩
  | describe => exact ⟨rfl, h⟩

/-- **Every history is answered alike**: what holds of one call is
carried from call to call. -/
theorem Behind.run (h : Behind d q) (calls : List Drbg.Call) :
    (d.run calls).1 = (q.run calls).1
      ∧ Behind (d.run calls).2 (q.run calls).2 := by
  induction calls generalizing d q with
  | nil => exact ⟨rfl, h⟩
  | cons call calls ih =>
    obtain ⟨hreply, hnext⟩ := h.step call
    obtain ⟨hreplies, hlast⟩ := ih hnext
    exact ⟨List.cons_eq_cons.mpr ⟨hreply, hreplies⟩, hlast⟩

/-- **A generator answers every history as a queue of words does**, from
any seed material and with any hash. What the queue hashes, and how much
of the hash it takes, is written out in it byte by byte; block, cursor
and wiping do not show, wherever the requests fall in a block and
however often the key is replaced between them. -/
theorem run_replies_eq (seed : Bytes) (calls : List Drbg.Call) :
    ((Drbg.ofSeed seed).run calls).1 = ((ofSeed seed).run calls).1 :=
  ((Behind.ofSeed seed).run calls).1

end WordQueue

end Strongbox.Random
