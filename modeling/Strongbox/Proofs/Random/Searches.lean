import Strongbox.Proofs.Bytes
import Strongbox.Random.Hardware

/-!
# Words searched one behind the other

Filling a destination from the processor is a row of searches through
one sequence of attempts: one search for each chunk of eight bytes, each
beginning with the attempt after the one where the last search has found
its word, and each given up after ten attempts. `Searched` is such a row
of searches with the words that they have found, `IsDry` is a search
that is given up, and `Written` is what the words make of the
destination. None of them mentions the loops that search.

`fillWords_is_searched` puts them together, for every sequence of
attempts and every destination. A search has only one end, so the row of
searches is the only one of its length (`Searched.append_of_le`); that
makes it an equivalence that all bytes are delivered and that every
chunk has its word. Attempts that have not been made do not matter.

## Searches and chunks

There are two sides to filling a destination, and they are said apart.
One is the row of searches through the attempts, which knows nothing of
bytes: where each search begins, which word it finds, and where the last
one ends. The other is what words do to a destination: chunk `k` holds
the leading bytes of word `k`, and what is behind the last word is as it
was. `FilledBy` joins them, in one constructor for success and one for a
chunk without a word.

Each side has only one outcome (`Searched.unique`, `Written.unique`),
and so has their join (`FilledBy.unique`). Therefore it is enough to
show that the code comes to one of them, and the equivalence follows.

The numbers ten and eight are written out in these definitions, as the
attempts for a word and the bytes of one.
-/

namespace Strongbox.Random.Hardware

/-- **The first word among so many attempts** is that of the attempt
numbered `found`. It is a statement about the sequence of attempts, in
which no search is made. -/
structure FirstFound (attempt : Nat → Option UInt64) (tries start : Nat)
    (word : UInt64) (found : Nat) : Prop where
  /-- It is not before the first attempt. -/
  start_le : start ≤ found
  /-- It is among those attempts. -/
  found_lt : found < start + tries
  /-- It gives the word. -/
  attempt_eq : attempt found = some word
  /-- The attempts before it give nothing. -/
  eq_none {i : Nat} (hstart : start ≤ i) (hfound : i < found) : attempt i = none

/-- **So many attempts that all give nothing.** The attempt after them
may give a word, but it is not one of them. -/
def IsDry (attempt : Nat → Option UInt64) (tries start : Nat) : Prop :=
  ∀ i, start ≤ i → i < start + tries → attempt i = none

/-- **Searches one behind the other**, each of at most ten attempts,
with the words that they find and the number of the attempt after the
last one. Where a search begins is told by the one before it. -/
inductive Searched (attempt : Nat → Option UInt64) :
    Nat → List UInt64 → Nat → Prop
  /-- No search. -/
  | nil (start : Nat) : Searched attempt start [] start
  /-- A search, and those that begin where it has ended. -/
  | cons {start found stop : Nat} {word : UInt64} {words : List UInt64}
    (hfound : FirstFound attempt 10 start word found)
    (hlater : Searched attempt (found + 1) words stop) :
    Searched attempt start (word :: words) stop

/-- The chunk of eight bytes with this number; the last one may be
shorter. It is empty past the end. -/
def chunk (bytes : Bytes) (k : Nat) : Bytes := (bytes.drop (8 * k)).take 8

/-- The number of chunks that there are. It is the quotient by eight,
rounded up. -/
def chunkCount (bytes : Bytes) : Nat := (bytes.length + 7) / 8

/-- **Words written over the chunks of a destination**, one over each of
the first chunks. Chunks are told by number, and so is the word over
each. -/
structure Written (words : List UInt64) (dest bytes : Bytes) : Prop where
  /-- The length stays. -/
  length_eq : bytes.length = dest.length
  /-- A chunk that has a word holds as many of its leading bytes as it
  is long. -/
  chunk_eq {k : Nat} {word : UInt64} (hword : words[k]? = some word) :
    chunk bytes k = (Bytes.littleEndian 8 word.toNat).take (chunk dest k).length
  /-- What is behind these chunks stays. -/
  drop_eq : bytes.drop (8 * words.length) = dest.drop (8 * words.length)

/-- **What comes of filling a destination** from the attempt numbered
`start` on. There is no third way: what has been written is all words or
the first ones of them. -/
inductive FilledBy (attempt : Nat → Option UInt64) (dest : Bytes)
    (start : Nat) : Filled → Prop
  /-- Every chunk has found its word. -/
  | whole {words : List UInt64} {stop : Nat} {bytes : Bytes}
    (hsearched : Searched attempt start words stop)
    (hcount : words.length = chunkCount dest)
    (hwritten : Written words dest bytes) :
    FilledBy attempt dest start ⟨.ok (), bytes, stop⟩
  /-- The first chunks have, and the ten attempts for the one after them
  have given nothing. -/
  | exhausted {words : List UInt64} {stop : Nat} {bytes : Bytes}
    (hsearched : Searched attempt start words stop)
    (hcount : words.length < chunkCount dest)
    (hdry : IsDry attempt 10 stop) (hwritten : Written words dest bytes) :
    FilledBy attempt dest start
      ⟨.error (.hardwareExhausted 10), bytes, stop + 10⟩

variable {attempt attempt' : Nat → Option UInt64}
  {dest rest bytes bytes' : Bytes} {word : UInt64}
  {words words' : List UInt64} {tries start stop stop' found : Nat}

/-! ## One search -/

/-- A search comes to its first word or is given up. By induction on the
attempts that are left, from the first one on. -/
theorem firstWord_searches (attempt : Nat → Option UInt64) (tries start : Nat) :
    (∃ word found, FirstFound attempt tries start word found ∧
        firstWord attempt tries start = (some word, found + 1)) ∨
      IsDry attempt tries start
        ∧ firstWord attempt tries start = (none, start + tries) := by
  induction tries generalizing start with
  | zero =>
    exact .inr ⟨fun i hstart hlt => absurd hlt (Nat.not_lt.mpr hstart), rfl⟩
  | succ tries ih =>
    unfold firstWord
    cases hfirst : attempt start with
    | some word =>
      exact .inl
        ⟨word, start,
          ⟨Nat.le_refl _, Nat.lt_add_of_pos_right (Nat.succ_pos _), hfirst,
          fun hstart hlt => absurd hlt (Nat.not_lt.mpr hstart)⟩, rfl⟩
    | none =>
      have hsum : start + 1 + tries = start + (tries + 1) := by omega
      have hnone {i : Nat} (hstart : start ≤ i)
          (hlater : start + 1 ≤ i → attempt i = none) : attempt i = none := by
        obtain rfl | hlt := Nat.eq_or_lt_of_le hstart
        · exact hfirst
        · exact hlater hlt
      obtain ⟨word, found, hfound, heq⟩ | ⟨hdry, heq⟩ := ih (start + 1)
      · exact .inl
          ⟨word, found,
            ⟨Nat.le_of_succ_le hfound.start_le, hsum ▸ hfound.found_lt,
            hfound.attempt_eq,
            fun hstart hlt => hnone hstart (hfound.eq_none · hlt)⟩, heq⟩
      · exact .inr
          ⟨fun i hstart hlt => hnone hstart (hdry i · (hsum ▸ hlt)), hsum ▸ heq⟩

/-- There is only one first word. Of two such attempts neither can be
before the other. -/
theorem FirstFound.unique {tries' found' : Nat} {word' : UInt64}
    (hfound : FirstFound attempt tries start word found)
    (hfound' : FirstFound attempt tries' start word' found') :
    found' = found ∧ word' = word := by
  obtain hlt | rfl | hlt := Nat.lt_trichotomy found' found
  · exact absurd
      (hfound'.attempt_eq.symm.trans (hfound.eq_none hfound'.start_le hlt))
      nofun
  · exact ⟨rfl,
      Option.some.inj (hfound'.attempt_eq.symm.trans hfound.attempt_eq)⟩
  · exact absurd
      (hfound.attempt_eq.symm.trans (hfound'.eq_none hfound.start_le hlt)) nofun

/-- Attempts that all give nothing have no first word. It would be among
them, and give a word. -/
theorem IsDry.not_firstFound (hdry : IsDry attempt tries start) :
    ¬ FirstFound attempt tries start word found := fun hfound =>
  nomatch hfound.attempt_eq.symm.trans
    (hdry found hfound.start_le hfound.found_lt)

/-! ## A row of searches -/

/-- Searches do not go back. Each begins behind the one before it, so
that no attempt is made use of twice. -/
theorem Searched.start_le (hsearched : Searched attempt start words stop) :
    start ≤ stop := by
  induction hsearched with
  | nil => exact Nat.le_refl _
  | cons hfound _ ih =>
    exact Nat.le_trans hfound.start_le (Nat.le_of_succ_le ih)

/-- **A longer row of searches begins with a shorter one.** They begin
at the same attempt, and each search finds what the other one has found. -/
theorem Searched.append_of_le (hsearched : Searched attempt start words stop)
    (hsearched' : Searched attempt start words' stop')
    (hle : words.length ≤ words'.length) :
    ∃ later, words' = words ++ later ∧ Searched attempt stop later stop' := by
  induction hsearched generalizing words' with
  | nil => exact ⟨words', rfl, hsearched'⟩
  | cons hfound _ ih =>
    cases hsearched' with
    | nil => exact absurd hle (Nat.not_succ_le_zero _)
    | cons hfound' hlater' =>
      obtain ⟨rfl, rfl⟩ := hfound.unique hfound'
      obtain ⟨later, rfl, hlater⟩ := ih hlater' (Nat.le_of_succ_le_succ hle)
      exact ⟨later, rfl, hlater⟩

/-- A row of searches of one length has one end. What the longer one has
more than the shorter one is nothing here. -/
theorem Searched.unique (hsearched : Searched attempt start words stop)
    (hsearched' : Searched attempt start words' stop')
    (hlength : words'.length = words.length) :
    words' = words ∧ stop' = stop := by
  obtain ⟨later, rfl, hlater⟩ :=
    hsearched.append_of_le hsearched' (Nat.le_of_eq hlength.symm)
  obtain rfl : later = [] := by
    rw [List.length_append] at hlength
    exact List.eq_nil_of_length_eq_zero (Nat.add_eq_left.mp hlength)
  cases hlater
  exact ⟨List.append_nil words, rfl⟩

/-- The attempts that have been made are all that a row of searches
depends on. The attempts of a search lie between its beginning and its
end. -/
theorem Searched.congr (hsearched : Searched attempt start words stop)
    (hsame : ∀ i, start ≤ i → i < stop → attempt' i = attempt i) :
    Searched attempt' start words stop := by
  induction hsearched with
  | nil start => exact .nil start
  | cons hfound hlater ih =>
    have hstop := hlater.start_le
    exact .cons
      ⟨hfound.start_le, hfound.found_lt,
        (hsame _ hfound.start_le hstop).trans hfound.attempt_eq,
        fun hi hlt =>
          (hsame _ hi (Nat.lt_trans hlt hstop)).trans (hfound.eq_none hi hlt)⟩
      (ih fun i hi =>
          hsame i (Nat.le_trans hfound.start_le (Nat.le_of_succ_le hi)))

/-- No row of searches goes beyond one that is given up. The next search
of a longer row would begin where there is no word. -/
theorem Searched.length_le_of_isDry
    (hsearched : Searched attempt start words stop)
    (hdry : IsDry attempt 10 stop)
    (hsearched' : Searched attempt start words' stop') :
    words'.length ≤ words.length := by
  refine Nat.le_of_not_lt fun hlt => ?_
  obtain ⟨later, rfl, hlater⟩ :=
    hsearched.append_of_le hsearched' (Nat.le_of_lt hlt)
  cases hlater with
  | nil => exact absurd hlt (by rw [List.append_nil]; exact Nat.lt_irrefl _)
  | cons hfound _ => exact hdry.not_firstFound hfound

/-! ## Chunks -/

/-- The chunks after the first one are those of what is behind it. It is
the recursion over the chunks of a destination. -/
theorem chunk_succ (bytes : Bytes) (k : Nat) :
    chunk bytes (k + 1) = chunk (bytes.drop 8) k := by
  unfold chunk
  rw [List.drop_drop, Nat.mul_succ, Nat.add_comm]

/-- There is one chunk more than behind the first one. The recursion
ends with the empty destination, which has none. -/
theorem chunkCount_drop (hdest : 0 < dest.length) :
    chunkCount dest = chunkCount (dest.drop 8) + 1 := by
  unfold chunkCount
  rw [List.length_drop]
  omega

/-- No words leave a destination as it is. It is the case of a search
that is given up at once. -/
theorem Written.refl (dest : Bytes) : Written [] dest dest :=
  ⟨rfl, nofun, rfl⟩

/-- **A word over the first chunk**, and others over the chunks behind
it. This is the step of filling, seen from the bytes. -/
theorem Written.cons (word : UInt64)
    (hrest : Written words (dest.drop 8) rest) :
    Written (word :: words) dest
      ((Bytes.littleEndian 8 word.toNat).take dest.length ++ rest) := by
  have hrestLength : rest.length = dest.length - 8 :=
    hrest.length_eq.trans List.length_drop
  have hfirstLength :
    ((Bytes.littleEndian 8 word.toNat).take dest.length).length
      = min dest.length 8 := by rw [List.length_take, Bytes.length_littleEndian]
  -- a first chunk that is short has nothing behind it
  have hends : dest.length ≤ 8 → rest = [] := fun hshort =>
    List.eq_nil_of_length_eq_zero
      (hrestLength.trans (Nat.sub_eq_zero_of_le hshort))
  have hdrop :
    ((Bytes.littleEndian 8 word.toNat).take dest.length ++ rest).drop 8
      = rest := by
    obtain hlong | hshort := Nat.le_total 8 dest.length
    · exact List.drop_left' (hfirstLength.trans (Nat.min_eq_right hlong))
    · rw [hends hshort, List.append_nil]
      exact List.drop_of_length_le (hfirstLength ▸ Nat.min_le_right _ _)
  have htake :
    ((Bytes.littleEndian 8 word.toNat).take dest.length ++ rest).take 8
      = (Bytes.littleEndian 8 word.toNat).take (min 8 dest.length) := by
    obtain hlong | hshort := Nat.le_total 8 dest.length
    · rw [List.take_left' (hfirstLength.trans (Nat.min_eq_right hlong)),
        Nat.min_eq_left hlong,
        List.take_of_length_le (by rwa [Bytes.length_littleEndian]),
        List.take_of_length_le (Nat.le_of_eq (Bytes.length_littleEndian ..))]
    · rw [hends hshort, List.append_nil, List.take_take]
  refine ⟨?_, fun {k} {_} hword => ?_, ?_⟩
  · rw [List.length_append, hfirstLength, hrestLength]
    omega
  · cases k with
    | zero =>
      obtain rfl := Option.some.inj hword
      show (List.drop 0 _).take 8 = List.take ((dest.drop 0).take 8).length _
      rw [List.drop_zero, List.drop_zero, List.length_take]
      exact htake
    | succ k =>
      rw [chunk_succ, chunk_succ, hdrop]
      exact hrest.chunk_eq hword
  · rw [List.length_cons, Nat.mul_succ, Nat.add_comm, ← List.drop_drop,
      ← List.drop_drop, hdrop]
    exact hrest.drop_eq

/-- What is behind the first chunk has the other words written over it.
It takes back what `Written.cons` does. -/
theorem Written.tail (hwritten : Written (word :: words) dest bytes) :
    Written words (dest.drop 8) (bytes.drop 8) where
  length_eq := by rw [List.length_drop, List.length_drop, hwritten.length_eq]
  chunk_eq hword := by
    rw [← chunk_succ, ← chunk_succ]
    exact hwritten.chunk_eq hword
  drop_eq := by
    rw [List.drop_drop, List.drop_drop, Nat.add_comm]
    exact hwritten.drop_eq

/-- Words can be written over a destination in one way only. By
induction over the words: the first chunk is told by the first one, and
the rest by the others. -/
theorem Written.unique (hwritten : Written words dest bytes)
    (hwritten' : Written words dest bytes') : bytes' = bytes := by
  induction words generalizing dest bytes bytes' with
  | nil => exact hwritten'.drop_eq.trans hwritten.drop_eq.symm
  | cons word words ih =>
    have hfirst : chunk bytes' 0 = chunk bytes 0 :=
      (hwritten'.chunk_eq rfl).trans (hwritten.chunk_eq rfl).symm
    have hrest : bytes'.drop 8 = bytes.drop 8 := ih hwritten.tail hwritten'.tail
    rw [← List.take_append_drop 8 bytes', hrest]
    exact (congrArg (· ++ bytes.drop 8) hfirst).trans
      (List.take_append_drop 8 bytes)

/-! ## Filling -/

/-- A search that finds its word, and the filling of what is behind the
first chunk. Whether all goes well is decided behind the first chunk. -/
theorem FilledBy.cons {f : Filled} (hdest : 0 < dest.length)
    (hfound : FirstFound attempt 10 start word found)
    (hrest : FilledBy attempt (dest.drop 8) (found + 1) f) :
    FilledBy attempt dest start
      { f with bytes := (Bytes.littleEndian 8 word.toNat).take dest.length
          ++ f.bytes } := by
  cases hrest with
  | whole hsearched hcount hwritten =>
    exact .whole (.cons hfound hsearched)
      ((congrArg (· + 1) hcount).trans (chunkCount_drop hdest).symm)
        (hwritten.cons word)
  | exhausted hsearched hcount hdry hwritten =>
    exact .exhausted (.cons hfound hsearched)
      (chunkCount_drop hdest ▸ Nat.succ_lt_succ hcount) hdry
        (hwritten.cons word)

/-- **Filling is searching**, chunk after chunk. There is no chunk left,
or a search that is given up, or one that finds its word. -/
theorem filledBy_fillWords (attempt : Nat → Option UInt64) (dest : Bytes)
    (start : Nat) :
    FilledBy attempt dest start (fillWords attempt dest start) := by
  induction dest, start using fillWords.induct attempt with
  | case1 dest start hempty =>
    obtain rfl := List.isEmpty_iff.mp hempty
    rw [fillWords, if_pos hempty]
    exact .whole (.nil start) rfl (.refl [])
  | case2 dest start hempty stop hnone =>
    obtain ⟨_, _, _, heq⟩ | ⟨hdry, heq⟩ :=
      firstWord_searches attempt maxRetries start
    · exact nomatch hnone.symm.trans heq
    · rw [fillWords, if_neg hempty, heq]
      have hdest : 0 < dest.length :=
        List.length_pos_iff.mpr (mt List.isEmpty_iff.mpr hempty)
      exact .exhausted (.nil start) (chunkCount_drop hdest ▸ Nat.succ_pos _)
        hdry (.refl dest)
  | case3 dest start hempty word stop hsome ih =>
    obtain ⟨word', found, hfound, heq⟩ | ⟨_, heq⟩ :=
      firstWord_searches attempt maxRetries start
    · rw [fillWords, if_neg hempty, heq]
      have hdest : 0 < dest.length :=
        List.length_pos_iff.mpr (mt List.isEmpty_iff.mpr hempty)
      obtain ⟨hword, rfl⟩ := Prod.mk.inj (hsome.symm.trans heq)
      obtain rfl := Option.some.inj hword
      exact .cons hdest hfound ih
    · exact nomatch hsome.symm.trans heq

/-- There is one thing only that can come of filling a destination. A
row of searches that is complete and one that is given up cannot both be
there. -/
theorem FilledBy.unique {f f' : Filled} (hf : FilledBy attempt dest start f)
    (hf' : FilledBy attempt dest start f') : f' = f := by
  cases hf with
  | whole hsearched hcount hwritten =>
    cases hf' with
    | whole hsearched' hcount' hwritten' =>
      obtain ⟨rfl, rfl⟩ :=
        hsearched.unique hsearched' (hcount'.trans hcount.symm)
      rw [hwritten.unique hwritten']
    | exhausted hsearched' hcount' hdry' _ =>
      have hle := hsearched'.length_le_of_isDry hdry' hsearched
      exact absurd (hcount ▸ hcount') (Nat.not_lt.mpr hle)
  | exhausted hsearched hcount hdry hwritten =>
    cases hf' with
    | whole hsearched' hcount' _ =>
      have hle := hsearched.length_le_of_isDry hdry hsearched'
      exact absurd (hcount' ▸ hcount) (Nat.not_lt.mpr hle)
    | exhausted hsearched' _ hdry' hwritten' =>
      obtain ⟨rfl, rfl⟩ := hsearched.unique hsearched'
        (Nat.le_antisymm (hsearched.length_le_of_isDry hdry hsearched')
          (hsearched'.length_le_of_isDry hdry' hsearched))
      rw [hwritten.unique hwritten']

/-- What comes of filling a destination is what filling it comes to. The
one direction is that the code comes to it, the other one that there is
nothing else to come to. -/
theorem filledBy_iff {f : Filled} :
    FilledBy attempt dest start f ↔ fillWords attempt dest start = f :=
  ⟨fun hf => hf.unique (filledBy_fillWords attempt dest start),
    fun heq => heq ▸ filledBy_fillWords attempt dest start⟩

/-- The attempts that have been made are all that a filling depends on.
For a search that was given up these are its ten attempts too. -/
theorem FilledBy.congr {f : Filled} (hf : FilledBy attempt dest start f)
    (hsame : ∀ i, start ≤ i → i < f.attempts → attempt' i = attempt i) :
    FilledBy attempt' dest start f := by
  cases hf with
  | whole hsearched hcount hwritten =>
    exact .whole (hsearched.congr hsame) hcount hwritten
  | exhausted hsearched hcount hdry hwritten =>
    have hstop := hsearched.start_le
    refine .exhausted
      (hsearched.congr fun i hi hlt => hsame i hi (Nat.lt_add_right 10 hlt))
      hcount
      (fun i hi hlt => ?_) hwritten
    exact (hsame i (Nat.le_trans hstop hi) hlt).trans (hdry i hi hlt)

/-- **A destination is filled by one search for each of its chunks**,
for every sequence of attempts and from every place in it. It says what
comes of it, that all is well exactly when every chunk finds its word,
and that attempts that have not been made do not matter. -/
theorem fillWords_is_searched (attempt : Nat → Option UInt64) (dest : Bytes)
    (start : Nat) :
    (∀ f, FilledBy attempt dest start f ↔ fillWords attempt dest start = f) ∧
      ((fillWords attempt dest start).outcome = .ok () ↔
        ∃ words stop,
          Searched attempt start words stop ∧ words.length = chunkCount dest) ∧
      ∀ attempt' : Nat → Option UInt64,
        (∀ i, start ≤ i → i < (fillWords attempt dest start).attempts →
          attempt' i = attempt i) →
        fillWords attempt' dest start = fillWords attempt dest start := by
  have hfilled := filledBy_fillWords attempt dest start
  refine ⟨fun f => filledBy_iff, ⟨fun hok => ?_, ?_⟩,
    fun attempt' hsame => filledBy_iff.mp (hfilled.congr hsame)⟩
  · generalize fillWords attempt dest start = f at hfilled hok
    cases hfilled with
    | whole hsearched hcount _ => exact ⟨_, _, hsearched, hcount⟩
    | exhausted => exact nomatch hok
  · rintro ⟨words, stop, hsearched, hcount⟩
    generalize fillWords attempt dest start = f at hfilled
    cases hfilled with
    | whole => rfl
    | exhausted hsearched' hcount' hdry' _ =>
      have hle := hsearched'.length_le_of_isDry hdry' hsearched
      exact absurd (hcount ▸ hcount') (Nat.not_lt.mpr hle)

/-- Attempts of which every fourth gives a word fill two chunks with
eight of them, and what the others would give does not matter. The
second chunk is of four bytes, and takes the first half of its word. -/
theorem fillWords_everyFourth :
    fillWords
        (fun i => if i % 4 = 3 ∧ i < 8 then some 0x0807060504030201 else none)
        (Bytes.zeros 12) 0
      = ⟨.ok (), [1, 2, 3, 4, 5, 6, 7, 8, 1, 2, 3, 4], 8⟩ := by
  have hevery :
      fillWords (fun i => if i % 4 = 3 then some 0x0807060504030201 else none)
          (Bytes.zeros 12) 0
        = ⟨.ok (), [1, 2, 3, 4, 5, 6, 7, 8, 1, 2, 3, 4], 8⟩ := by cbv
  refine ((fillWords_is_searched _ (Bytes.zeros 12) 0).2.2 _
    fun i _ hi => ?_).trans hevery
  rw [hevery] at hi
  exact ite_congr (propext (and_iff_left hi)) (fun _ => rfl) fun _ => rfl

/-- The third chunk goes without its word: the two before it are
written, the bytes from there on stay, and ten attempts have been made
for it. -/
example : fillWords
  (fun i => if i % 4 = 3 ∧ i < 8 then some 0x0807060504030201 else none)
      (List.replicate 18 9) 0
    = ⟨.error (.hardwareExhausted 10),
        [1, 2, 3, 4, 5, 6, 7, 8, 1, 2, 3, 4, 5, 6, 7, 8, 9, 9], 18⟩ := by cbv

end Strongbox.Random.Hardware
