import Mathlib.Data.List.Nodup
import Strongbox.Proofs.Random.Labels
import Strongbox.Proofs.Random.Stream
import Strongbox.Random.Journal

/-!
# No input of the hash means two things

What a generator hashes is told apart by its bytes. A counter is hashed
bare, in eight bytes, and everything else has a label in front and its
length before the material; of the labels in use none begins another. So
the input says what it is for, and which counter or which material is in
it (`Hashing.eq_of_input_eq`), for every material of any length and
whoever has chosen it. The one exception is material that is taken in
under a label of the caller's own, by way of the generator itself.

A counter is never hashed twice either, since every block has one of its
own and a reseeding leaves the counter alone. `Drbg.Explained` is what
carries this along a history: the journal so far leads to the key, the
counters in it are zero, one, two and so on, and the next one is how
many there have been.

## Three strings

There are three kinds of strings, and three reasons why two of them
differ. Two counters differ because eight bytes tell a number of 64
bits. A counter and a reseeding differ in length: what is hashed for a
reseeding has a label that is not empty, and eight bytes behind it. Two
reseedings differ because no label in use begins another one, which is a
finite fact about three texts, and because under one label the string
tells the material.

None of this needs a bound on the material, nor anything about where it
comes from: a caller may bring the very bytes that the sources have just
delivered, and is told apart from them by the label.
-/

namespace Strongbox.Random

/-! ## Inputs -/

/-- **No label in use begins another one.** It is looked at for all nine
pairs, as a fact about three texts that do not change. -/
theorem Purpose.eq_of_label_begins {p p' : Purpose} (h : p.label <+: p'.label) :
    p = p' := by
  cases p <;> cases p' <;> first | rfl | exact absurd h (by decide)

/-- A label is never empty. So what is hashed for a reseeding is longer
than a counter, by one byte at the least. -/
theorem Purpose.length_label_pos (p : Purpose) : 0 < p.label.length := by
  cases p <;> decide

/-- **What is hashed for a reseeding** tells the purpose and the
material. The labels exclude each other at their first bytes, and under
one label the length in front of the material gives it away. -/
theorem Purpose.reseedInput_inj {p p' : Purpose} {material material' : Bytes}
    (h : Drbg.reseedInput p.label material
        = Drbg.reseedInput p'.label material') :
    p = p' ∧ material = material' := by
  obtain ⟨hlabel, hmaterial⟩ := (Drbg.reseedInput_inj
    (fun hbegins => congrArg label (eq_of_label_begins hbegins))
    (fun hbegins => congrArg label (eq_of_label_begins hbegins).symm)).mp h
  exact ⟨eq_of_label_begins (hlabel ▸ List.prefix_refl _), hmaterial⟩

/-- A counter is told by its bytes. Eight bytes are enough for it, since
it is a number of 64 bits. -/
theorem Drbg.refillInput_injective : Function.Injective Drbg.refillInput := by
  intro c c' h
  have hread (c : UInt64) : Bytes.ofLittleEndian (refillInput c) = c.toNat :=
    (Bytes.ofLittleEndian_littleEndian 8 c.toNat).trans
      (Nat.mod_eq_of_lt c.toNat_lt)
  exact UInt64.toNat_inj.mp
    ((hread c).symm.trans ((congrArg _ h).trans (hread c')))

/-- **A counter is shorter** than anything that has a label. The label
is what makes the difference, because both have eight bytes besides. -/
theorem Drbg.refillInput_ne_reseedInput (c : UInt64) (p : Purpose)
    (material : Bytes) :
    refillInput c ≠ reseedInput p.label material := by
  intro h
  have hlength := congrArg List.length h
  rw [refillInput, reseedInput, List.length_append, List.length_append,
    Bytes.length_littleEndian, Bytes.length_littleEndian] at hlength
  have hlabel := p.length_label_pos
  omega

/-- **What is hashed says what it is for**, and what is in it. It is the
law about single strings; what follows is about journals. -/
theorem Hashing.eq_of_input_eq {e e' : Hashing} (he : e.isDirect = false)
    (he' : e'.isDirect = false) (h : e.input = e'.input) : e = e' := by
  cases e with
  | refill c =>
    cases e' with
    | refill c' => exact congrArg refill (Drbg.refillInput_injective h)
    | reseed p' material' =>
      exact absurd h (Drbg.refillInput_ne_reseedInput c p' material')
    | direct => exact Bool.noConfusion he'
  | reseed p material =>
    cases e' with
    | refill c' =>
      exact absurd h.symm (Drbg.refillInput_ne_reseedInput c' p material)
    | reseed p' material' =>
      obtain ⟨rfl, rfl⟩ := Purpose.reseedInput_inj h
      rfl
    | direct => exact Bool.noConfusion he'
  | direct => exact Bool.noConfusion he

/-! ## Journals -/

/-- The counters of two journals, one behind the other, are those of the
one followed by those of the other. -/
theorem blockCounters_append (earlier later : List Hashing) :
    blockCounters (earlier ++ later)
      = blockCounters earlier ++ blockCounters later :=
  List.filterMap_append

namespace Drbg

section

variable [KeyedHash] {key : Bytes} {past : List Hashing} {d : Drbg}

/-- **A generator that a journal explains**, from the key with which it
began. All three are preserved by whatever is hashed next. -/
structure Explained (key : Bytes) (past : List Hashing) (d : Drbg) : Prop where
  /-- One use of the hash after another leads to the key. -/
  key_eq : d.key = past.foldl Hashing.nextKey key
  /-- The blocks are counted from zero on. -/
  counters_eq : blockCounters past
    = (List.range (blockCounters past).length).map UInt64.ofNat
  /-- The next block is counted on. -/
  counter_eq : d.counter = UInt64.ofNat (blockCounters past).length

/-- At the beginning nothing has been hashed under a key: the first key
is derived from the seed alone, and the journal is empty. -/
theorem Explained.ofSeed (material : Bytes) :
    Explained (Drbg.ofSeed material).key [] (Drbg.ofSeed material) :=
  ⟨rfl, rfl, rfl⟩

/-- **New material** makes a key and no block. The purpose does not
matter, so that this covers the caller's own labels too. -/
theorem Explained.reseed (h : Explained key past d) (label material : Bytes)
    {e : Hashing} (hinput : e.input = reseedInput label material)
    (hsize : e.size = keyLength) (hcounter : e.counter? = none) :
    Explained key (past ++ [e]) (d.reseed label material) := by
  have hcounters : blockCounters (past ++ [e]) = blockCounters past := by
    have hnone : blockCounters [e] = [] := List.filterMap_cons_none hcounter
    rw [blockCounters_append, hnone, List.append_nil]
  refine ⟨?_, hcounters ▸ h.counters_eq, hcounters ▸ h.counter_eq⟩
  rw [List.foldl_append, ← h.key_eq]
  show (KeyedHash.keyed d.key (reseedInput label material) keyLength ++ _).take
    keyLength
      = (KeyedHash.keyed d.key e.input e.size).take keyLength
  rw [hinput, hsize,
    List.take_append_of_le_length
      (Nat.le_of_eq (KeyedHash.length_keyed ..).symm)]

/-- **A new block** is made with the next counter. It is the one that
the generator has kept, and counting on gives the one after it. -/
theorem Explained.refill (h : Explained key past d) :
    Explained key (past ++ [.refill d.counter]) d.refill := by
  have hcounters : blockCounters (past ++ [.refill d.counter])
      = blockCounters past ++ [d.counter] := blockCounters_append ..
  have hlength : (blockCounters (past ++ [.refill d.counter])).length
      = (blockCounters past).length + 1 := by
    rw [hcounters, List.length_append, List.length_singleton]
  refine ⟨?_, ?_, ?_⟩
  · rw [List.foldl_append, ← h.key_eq]
    rfl
  · rw [hlength, List.range_succ, List.map_append, ← h.counters_eq, hcounters,
      h.counter_eq]
    rfl
  · rw [hlength]
    show d.counter + 1 = _
    rw [h.counter_eq]
    exact (UInt64.ofNat_add ..).symm

/-- A word from the block is hashed for by nothing: key and counter
stay, and so does what leads to them. -/
theorem Explained.takeWord (h : Explained key past d) :
    Explained key past d.takeWord.2 :=
  ⟨(WordQueue.key_takeWord d).trans h.key_eq, h.counters_eq, h.counter_eq⟩

/-- A word is hashed for by nothing, or by one block when the one at
hand is spent. -/
theorem Explained.word (h : Explained key past d) :
    Explained key (past ++ d.wordJournal) d.word.2 := by
  unfold wordJournal Drbg.word
  by_cases hspent : d.cursor + wordLength > blockLength
  · rw [if_pos hspent, if_pos hspent]
    exact h.refill.takeWord
  · rw [if_neg hspent, if_neg hspent, List.append_nil]
    exact h.takeWord

/-- By induction on their number, each word adds its own journal. How
many blocks that makes depends on where in a block the first one stands. -/
theorem Explained.words (h : Explained key past d) (count : Nat) :
    Explained key (past ++ d.wordsJournal count)
      (takeWords Drbg.word count d).2 := by
  induction count generalizing past d with
  | zero =>
    rw [wordsJournal, List.append_nil]
    exact h
  | succ count ih =>
    rw [wordsJournal, ← List.append_assoc, takeWords_succ]
    exact ih h.word

/-- A call that brings no new material is hashed for as its words are. A
word, a 64-bit word and bytes are words in the end. -/
theorem journal_of_keepsStream (d : Drbg) {call : Call}
    (hkeeps : call.keepsStream = true) :
    d.journal call = d.wordsJournal (wordsFor call.size) := by
  cases call with
  | reseed => exact Bool.noConfusion hkeeps
  | word | wide | fill | describe => rfl

/-- **Every call adds its journal**, to the generator itself: new
material its label and its bytes, any other call the blocks for its
words. -/
theorem Explained.step (h : Explained key past d) (call : Call) :
    Explained key (past ++ d.journal call) (d.step call).2 := by
  have hwords (hkeeps : call.keepsStream = true) :
      Explained key (past ++ d.journal call) (d.step call).2 := by
    rw [d.journal_of_keepsStream hkeeps,
      congrArg Prod.snd (d.step_eq_draw hkeeps)]
    exact h.words (wordsFor call.size)
  cases call with
  | reseed label material => exact h.reseed label material rfl rfl rfl
  | word | wide | fill | describe => exact hwords rfl

end

end Drbg

namespace Rng

variable {key : Bytes} {past : List Hashing} {r : Rng}

/-- A call that leaves the stream as it is is hashed for as its words
are. The refused calls are among them, which are hashed for by nothing. -/
theorem callJournal_of_keepsStream (r : Rng) (host : Host) {call : Call}
    (hkeeps : call.keepsStream = true) :
    r.callJournal host call = r.drbg.wordsJournal (wordsFor call.size) := by
  cases call with
  | seed material =>
    have hempty : material.isEmpty = true := hkeeps
    simp only [callJournal, if_pos hempty, Call.size]
    rfl
  | randomSeed => exact Bool.noConfusion hkeeps
  | generator call => exact r.drbg.journal_of_keepsStream hkeeps
  | bytes | describe => rfl

/-- **Every call adds its journal**, to a generator with its sources. A
new draw is hashed under the label of the library, the caller's material
under that of the caller. -/
theorem explained_step (h : Drbg.Explained key past r.drbg) (host : Host)
    (call : Call) :
    Drbg.Explained key (past ++ r.callJournal host call)
      (r.step host call).2.1.drbg := by
  by_cases hkeeps : call.keepsStream = true
  · rw [r.callJournal_of_keepsStream host hkeeps,
      (r.step_eq_draw host hkeeps).2]
    exact h.words (wordsFor call.size)
  · cases call with
    | seed material =>
      have hsome : ¬material.isEmpty = true := hkeeps
      unfold callJournal step seed
      simp only [if_neg hsome]
      exact h.reseed callerLabel material rfl rfl rfl
    | randomSeed => exact h.reseed cascadeLabel _ rfl rfl rfl
    | generator call => exact h.step call
    | bytes | describe => exact absurd rfl hkeeps

/-- **A history adds its journal**, call by call, to whatever journal
the generator has been explained by so far. -/
theorem explained_run (h : Drbg.Explained key past r.drbg) (host : Host)
    (calls : List Call) :
    Drbg.Explained key (past ++ r.journal host calls)
      (r.run host calls).2.1.drbg := by
  induction calls generalizing past r host with
  | nil =>
    rw [journal, List.append_nil]
    exact h
  | cons call calls ih =>
    have hrest := ih (explained_step h host call) (r.step host call).2.2
    rwa [List.append_assoc] at hrest

/-- **A generator is explained by its journal**, from the first draw on.
The first draw makes the key without being hashed under one; the second
one is the first entry. -/
theorem explained_ofCascade (c : Cascade) (h : Host) (calls : List Call) :
    Drbg.Explained (Drbg.ofSeed (c.draw (Bytes.zeros seedLength) h).bytes).key
      (journalFrom c h calls)
        ((ofCascade c h).1.run (ofCascade c h).2 calls).2.1.drbg := by
  let first := c.draw (Bytes.zeros seedLength) h
  let second := first.sources.draw first.bytes first.host
  have hmade :
    Drbg.Explained (Drbg.ofSeed first.bytes).key [.reseed .augment second.bytes]
      (ofCascade c h).1.drbg :=
    (Drbg.Explained.ofSeed first.bytes).reseed augmentLabel second.bytes
      rfl rfl rfl
  exact explained_run hmade (ofCascade c h).2 calls

end Rng

/-! ## Nothing direct -/

/-- What is hashed for words is not direct: it is counters, and a label
of the caller's own has no part in it. -/
theorem Drbg.isDirect_of_mem_wordsJournal [KeyedHash] {d : Drbg} {count : Nat}
    {e : Hashing} (he : e ∈ d.wordsJournal count) : e.isDirect = false := by
  induction count generalizing d with
  | zero => exact absurd he List.not_mem_nil
  | succ count ih =>
    obtain hfirst | hrest := List.mem_append.mp he
    · unfold wordJournal at hfirst
      split at hfirst
      · rw [List.mem_singleton.mp hfirst]
        rfl
      · exact absurd hfirst List.not_mem_nil
    · exact ih hrest

namespace Rng

variable {r : Rng} {host : Host} {e : Hashing}

/-- Only a reseeding of the generator itself is direct, which is a call
that can be told as such. -/
theorem isDirect_of_mem_callJournal {call : Call}
    (hcall : call.isDirect = false) (he : e ∈ r.callJournal host call) :
    e.isDirect = false := by
  by_cases hkeeps : call.keepsStream = true
  · rw [r.callJournal_of_keepsStream host hkeeps] at he
    exact Drbg.isDirect_of_mem_wordsJournal he
  · cases call with
    | seed material =>
      have hsome : ¬material.isEmpty = true := hkeeps
      unfold callJournal at he
      simp only [if_neg hsome] at he
      rw [List.mem_singleton.mp he]
      rfl
    | randomSeed =>
      rw [List.mem_singleton.mp he]
      rfl
    | generator call =>
      cases call with
      | reseed label material => exact Bool.noConfusion hcall
      | word | wide | fill | describe => exact absurd rfl hkeeps
    | bytes | describe => exact absurd rfl hkeeps

/-- A history without such calls has nothing direct in it, since the
journal is that of its calls. -/
theorem isDirect_of_mem_journal {calls : List Call}
    (hcalls : ∀ call ∈ calls, call.isDirect = false)
    (he : e ∈ r.journal host calls) : e.isDirect = false := by
  induction calls generalizing r host with
  | nil => exact absurd he List.not_mem_nil
  | cons call calls ih =>
    obtain ⟨hcall, hrest⟩ := List.forall_mem_cons.mp hcalls
    obtain hfirst | hlater := List.mem_append.mp he
    · exact isDirect_of_mem_callJournal hcall hfirst
    · exact ih hrest hlater

/-- The second draw is taken in under a label of the library, so that
the beginning of a generator adds nothing direct either. -/
theorem isDirect_of_mem_journalFrom {c : Cascade} {calls : List Call}
    (hcalls : ∀ call ∈ calls, call.isDirect = false)
    (he : e ∈ journalFrom c host calls) :
    e.isDirect = false := by
  obtain rfl | hlater := List.mem_cons.mp he
  · rfl
  · exact isDirect_of_mem_journal hcalls hlater

/-- **No two uses of the hash share an input**, in one run or in two,
over any sources and on any hosts, unless they are the same use: for the
same purpose, with the same counter or the same material. Only calls
that take in material under a label of the caller's own are left out.
And no counter is used twice in a run that makes no more blocks than
there are counters, whatever is taken in between them, under any label.
That the journals leave nothing out shows in the key, which they lead to
from the first draw. -/
theorem hash_inputs_never_collide :
    (∀ (c c' : Cascade) (h h' : Host) (calls calls' : List Call),
      (∀ call ∈ calls, call.isDirect = false)
        → (∀ call ∈ calls', call.isDirect = false) →
      ∀ e ∈ journalFrom c h calls, ∀ e' ∈ journalFrom c' h' calls',
        e.input = e'.input → e = e')
    ∧ ∀ (c : Cascade) (h : Host) (calls : List Call),
      ((blockCounters (journalFrom c h calls)).length ≤ 2 ^ 64 →
        (blockCounters (journalFrom c h calls)).Nodup)
      ∧ ((ofCascade c h).1.run (ofCascade c h).2 calls).2.1.drbg.key
        = (journalFrom c h calls).foldl Hashing.nextKey
            (Drbg.ofSeed (c.draw (Bytes.zeros seedLength) h).bytes).key := by
  refine ⟨fun c c' h h' calls calls' hcalls hcalls' e he e' he' hinput => ?_,
    fun c h calls => ?_⟩
  · exact Hashing.eq_of_input_eq (isDirect_of_mem_journalFrom hcalls he)
      (isDirect_of_mem_journalFrom hcalls' he') hinput
  · have hexplained := explained_ofCascade c h calls
    refine ⟨fun hfew => ?_, hexplained.key_eq⟩
    rw [hexplained.counters_eq]
    refine List.Nodup.map_on ?_ List.nodup_range
    intro i hi j hj hij
    have hvalue {k : Nat}
      (hk : k ∈ List.range (blockCounters (journalFrom c h calls)).length) :
        (UInt64.ofNat k).toNat = k :=
      UInt64.toNat_ofNat_of_lt' (Nat.lt_of_lt_of_le (List.mem_range.mp hk) hfew)
    exact (hvalue hi).symm.trans ((congrArg UInt64.toNat hij).trans (hvalue hj))

/-- A caller who brings what the sources have just given, byte for byte.
The two uses are in two histories over the same sources, and differ by
their labels alone. -/
theorem hash_inputs_never_collide_on_known_draw :
    let c : Cascade := ⟨[]⟩
    let h : Host := ⟨Feed.ofList [] ⟨1, 2⟩, Feed.ofList [] (.failure 1)⟩
    let drawn := (c.draw (Bytes.zeros seedLength) h).bytes
    Hashing.reseed .callerSeed drawn ∈ journalFrom c h [.seed drawn]
      ∧ Hashing.reseed .cascadeSeed drawn ∈ journalFrom c h [.randomSeed]
      ∧ Hashing.input (.reseed .callerSeed drawn)
        ≠ Hashing.input (.reseed .cascadeSeed drawn)
      ∧ (blockCounters
          (journalFrom c h [.word, .seed drawn, .bytes 65])).Nodup := by
  intro c h drawn
  have hsome : ¬drawn.isEmpty = true := by decide
  have hbrought : Hashing.reseed .callerSeed drawn
    ∈ journalFrom c h [.seed drawn] := by
    have hcall : Hashing.reseed .callerSeed drawn
        ∈ (ofCascade c h).1.callJournal (ofCascade c h).2 (.seed drawn) := by
      unfold callJournal
      simp only [if_neg hsome, List.mem_singleton]
    exact List.mem_cons_of_mem _ (List.mem_append_left _ hcall)
  have hgiven : Hashing.reseed .cascadeSeed drawn
    ∈ journalFrom c h [.randomSeed] :=
    List.mem_cons_of_mem _ (List.mem_singleton_self _)
  refine ⟨hbrought, hgiven, fun hinput => ?_, ?_⟩
  · have hsame :=
      hash_inputs_never_collide.1 c c h h [.seed drawn] [.randomSeed]
        (by simp [Call.isDirect]) (by simp [Call.isDirect]) _ hbrought _ hgiven
          hinput
    cases hsame
  · exact (hash_inputs_never_collide.2 c h [.word, .seed drawn, .bytes 65]).1
      (by decide)

end Rng

end Strongbox.Random
