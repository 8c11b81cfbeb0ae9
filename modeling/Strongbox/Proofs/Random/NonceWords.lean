import Mathlib.Algebra.Order.Floor.Div
import Strongbox.Proofs.Random.Nonces
import Strongbox.Proofs.Random.Stream

/-!
# Which words a nonce is made of

A session of nonces on a source of words draws one word as its counter,
before the first nonce, and after that as many words for every nonce as
cover the bytes behind the counter. Of the last of them a part may be
lost, but no word is left for the next nonce. The nonces of a session
are therefore cut out of the stream of the source at regular distances,
and it does not show where the source begins a new block.

`SuffixesFrom` says this of the random bytes, as `CountUpFrom` does of
the counters, and `nonces_are_segments` of the nonces of a generator
that has been seeded: the words of a nonce are in no other nonce, and
the counter is in none.

## Regular distances

Behind the counter a nonce of length `n` has `n - 4` bytes, which take
`m` words, so that nonce `k` has the words from `1 + k * m` on, and the
counter is word zero. This is arithmetic on positions once it is known
that each request takes its own words and leaves none behind, which is
what a draw means (`next_eq_draw`).

It is asked of the source that it makes its bytes out of words
(`FillsByWords`), as every generator of the library does. A source that
made its bytes in some other way would have nonces as good, but they
would not be cut out of a stream of words.
-/

namespace Strongbox.Random

/-- As many words as cover a number of bytes. This is the name under
which the quotient rounded up is known. -/
theorem wordsFor_eq_ceilDiv (n : Nat) : wordsFor n = n ⌈/⌉ 4 :=
  (Nat.ceilDiv_eq_add_pred_div n 4).symm

/-- **Stretches of one length that begin at different multiples of it**
have nothing in common. The one that begins later begins behind the end
of the other. -/
theorem disjoint_range'_mul {i j : Nat} (hij : i ≠ j) (first m : Nat) :
    List.Disjoint (List.range' (first + i * m) m)
      (List.range' (first + j * m) m) := by
  have hless {i j : Nat} (hlt : i < j) :
      List.Disjoint (List.range' (first + i * m) m)
        (List.range' (first + j * m) m) := by
    have hnext : (i + 1) * m ≤ j * m := Nat.mul_le_mul_right m hlt
    refine List.disjoint_left.mpr fun n hi hj => ?_
    rw [List.mem_range'_1] at hi hj
    rw [Nat.succ_mul] at hnext
    omega
  obtain hlt | hlt := Nat.lt_or_gt_of_ne hij
  · exact hless hlt
  · exact (hless hlt).symm

/-- **Nonces with random bytes from a stream**: behind the counter, each
has the bytes of as many words as cover them, from where the words of
the one before it have ended. Position and number of the words depend on
the number of the nonce and on the length alone. -/
def SuffixesFrom {ρ : Type} (next : ρ → UInt32 × ρ) (length : Nat) (r : ρ)
    (nonces : List Bytes) : Prop :=
  ∀ k nonce, nonces[k]? = some nonce →
    nonce.drop counterLength
      = ((segment next r (k * wordsFor (length - counterLength))
          (wordsFor (length - counterLength))).flatMap
            Bytes.ofWord).take (length - counterLength)

/-- **The next random bytes** are the first ones of the stream. The
others take theirs from the stream behind them. -/
theorem SuffixesFrom.cons {ρ : Type} {next : ρ → UInt32 × ρ} {length : Nat}
    {r : ρ} {nonces : List Bytes}
    (hlater : SuffixesFrom next length
        (takeWords next (wordsFor (length - counterLength)) r).2 nonces)
    (counter : UInt32) :
    SuffixesFrom next length r
      ((Bytes.ofWord counter ++ (draw next r (length - counterLength)).1)
          :: nonces) := by
  intro k nonce hk
  cases k with
  | zero =>
    obtain rfl := Option.some.inj hk
    rw [Nat.zero_mul]
    exact List.drop_left' (Bytes.length_ofWord counter)
  | succ k =>
    rw [hlater k nonce hk, segment_takeWords, Nat.succ_mul,
      Nat.add_comm (k * _)]

namespace NonceSequence

variable {ρ : Type} [RandomSource ρ] {s : NonceSequence} {counter : UInt32}

/-- **A source of random numbers that makes all its bytes out of
words.** It is what is asked of a source, here and nowhere else. -/
def FillsByWords (ρ : Type) [RandomSource ρ] : Prop :=
  ∀ (r : ρ) (n : Nat), RandomSource.fill r n = fillFrom RandomSource.word r n

/-- **A nonce takes as many words as cover its random bytes.** The
counter of the nonce after it is one more, and the source is behind
these words. -/
theorem next_eq_draw (hρ : FillsByWords ρ) (h : s.counter? = some counter)
    (r : ρ) :
    s.next r
      = (Bytes.ofWord counter
          ++ (draw RandomSource.word r (s.length - counterLength)).1,
        { s with counter? := some (counter + 1) },
        (draw RandomSource.word r (s.length - counterLength)).2) := by
  unfold next NonceSequence.counter
  rw [h]
  show (_ ++ (RandomSource.fill r (s.length - counterLength)).1, _,
    (RandomSource.fill r (s.length - counterLength)).2) = _
  rw [hρ, fillFrom_eq_draw]

/-- **The nonces of a session that has its counter** take their random
bytes from the stream, and the source goes on behind them. By induction
on their number, with the source behind one nonce in front of the next
one. -/
theorem suffixesFrom_nexts (hρ : FillsByWords ρ) (h : s.counter? = some counter)
    (r : ρ) (count : Nat) :
    SuffixesFrom RandomSource.word s.length r (s.nexts r count).1
      ∧ (s.nexts r count).2.2
        = (takeWords RandomSource.word
            (count * wordsFor (s.length - counterLength)) r).2 := by
  induction count generalizing s counter r with
  | zero =>
    rw [Nat.zero_mul]
    exact ⟨nofun, rfl⟩
  | succ count ih =>
    obtain ⟨hsuffixes, hsource⟩ :=
      ih (s := { s with counter? := some (counter + 1) }) rfl
        (draw RandomSource.word r (s.length - counterLength)).2
    unfold nexts
    rw [next_eq_draw hρ h]
    refine ⟨hsuffixes.cons counter, hsource.trans ?_⟩
    rw [Nat.succ_mul, Nat.add_comm, takeWords_add]
    rfl

/-- **The first nonce of a session takes one word before all others**,
its counter. After that it is a session that has its counter. -/
theorem nexts_start_succ (length : Nat) (r : ρ) (count : Nat) :
    (start length).nexts r (count + 1)
      = nexts ⟨length, some (RandomSource.word r).1⟩ (RandomSource.word r).2
        (count + 1) := by
  unfold nexts
  rw [next_of_none rfl]
  rfl

/-- **The nonces of a session** take their random bytes from the stream
behind its first word. A session that is asked for no nonce has not
taken that word either. -/
theorem suffixesFrom_nexts_start (hρ : FillsByWords ρ) (length : Nat) (r : ρ)
    (count : Nat) :
    SuffixesFrom RandomSource.word length (RandomSource.word r).2
        ((start length).nexts r count).1
      ∧ (0 < count → ((start length).nexts r count).2.2
        = (takeWords RandomSource.word
            (1 + count * wordsFor (length - counterLength)) r).2) := by
  cases count with
  | zero => exact ⟨nofun, fun hzero => absurd hzero (Nat.lt_irrefl 0)⟩
  | succ count =>
    rw [nexts_start_succ]
    obtain ⟨hsuffixes, hsource⟩ :=
      suffixesFrom_nexts (s := ⟨length, some _⟩) hρ rfl
        (RandomSource.word r).2 (count + 1)
    refine ⟨hsuffixes, fun _ => hsource.trans ?_⟩
    rw [takeWords_add]
    rfl

end NonceSequence

/-- **The nonces of a generator are cut out of its stream.** With a
generator that has been seeded, the nonce of every number is the first
word of the stream plus the number, and behind it the first bytes of as
many words as cover them, from the stream behind those of the nonces
before it. Each has the length that was asked for; the generator has
given these words and no others; and of the words of a nonce none is in
another nonce, and none is the counter. -/
theorem nonces_are_segments [KeyedHash] {length : Nat} (hlength : 4 < length)
    (seed : Bytes) (count : Nat) :
    let w := wordAt Drbg.word (Drbg.ofSeed seed)
    let m := (length - 4) ⌈/⌉ 4
    let suffix := fun k => List.range' (1 + k * m) m
    let drawn := (NonceSequence.start length).nexts (Drbg.ofSeed seed) count
    (∀ k < count,
        drawn.1[k]? = some (Bytes.littleEndian 4 (((w 0).toNat + k) % 2 ^ 32)
          ++ (((suffix k).map w).flatMap Bytes.ofWord).take (length - 4)))
      ∧ (∀ nonce ∈ drawn.1, nonce.length = length)
      ∧ (0 < count
          → drawn.2.2
          = (takeWords Drbg.word (1 + count * m) (Drbg.ofSeed seed)).2)
      ∧ (∀ k, 0 ∉ suffix k)
      ∧ ∀ i j, i ≠ j → List.Disjoint (suffix i) (suffix j) := by
  intro w m suffix drawn
  have hm : wordsFor (length - counterLength) = m := wordsFor_eq_ceilDiv _
  obtain ⟨hsuffixes, hsource⟩ :=
    NonceSequence.suffixesFrom_nexts_start (ρ := Drbg)
      (fun _ _ => rfl) length (Drbg.ofSeed seed) count
  have hcounters :=
    NonceSequence.countUpFrom_nexts_start length (Drbg.ofSeed seed) count
  rw [hm] at hsource
  have hnonce {k : Nat} {nonce : Bytes} (hk : drawn.1[k]? = some nonce) :
      nonce = Bytes.littleEndian 4 (((w 0).toNat + k) % 2 ^ 32)
        ++ (((suffix k).map w).flatMap Bytes.ofWord).take (length - 4) := by
    have hsegment : segment Drbg.word (Drbg.word (Drbg.ofSeed seed)).2 (k * m) m
        = (suffix k).map w :=
          segment_takeWords Drbg.word 1 (Drbg.ofSeed seed) (k * m) m
    have hcounter : nonce.take counterLength
        = Bytes.littleEndian 4 (((w 0).toNat + k) % 2 ^ 32) :=
          hcounters k nonce hk
    have hrandom : nonce.drop counterLength
        = (((suffix k).map w).flatMap Bytes.ofWord).take (length - 4) := by
      rw [hsuffixes k nonce hk, hm, ← hsegment]
      rfl
    rw [← hcounter, ← hrandom, List.take_append_drop]
  refine ⟨fun k hk => ?_, fun nonce hmem => ?_, hsource, fun k hmem => ?_,
    fun i j hij => disjoint_range'_mul hij 1 m⟩
  · have hget : drawn.1[k]? = some _ :=
      List.getElem?_eq_getElem
        ((NonceSequence.length_nexts _ (Drbg.ofSeed seed) count).symm ▸ hk)
    rw [hget, ← hnonce hget]
  · obtain ⟨k, hk⟩ := List.mem_iff_getElem?.mp hmem
    have hcovered : length - 4 ≤ 4 * m := by
      rw [← hm]
      unfold wordsFor counterLength
      omega
    rw [hnonce hk, List.length_append, Bytes.length_littleEndian,
      List.length_take,
      length_flatMap_ofWord, List.length_map, List.length_range',
      Nat.min_eq_left hcovered]
    exact Nat.add_sub_cancel' (Nat.le_of_lt hlength)
  · have hfirst := (List.mem_range'_1.mp hmem).1
    exact absurd (Nat.le_trans (Nat.le_add_right 1 (k * m)) hfirst)
      (Nat.not_succ_le_zero 0)

/-- Nonces of eleven bytes take two words each behind the counter, and
lose a byte of the second one: the second nonce has the words of the
numbers three and four. Word zero is the counter, and words one and two
are in the first nonce. -/
theorem nonces_are_segments_eleven :
    let w := wordAt Drbg.word (Drbg.ofSeed [1, 2, 3])
    let drawn := (NonceSequence.start 11).nexts (Drbg.ofSeed [1, 2, 3]) 2
    drawn.1[1]? = some (Bytes.littleEndian 4 (((w 0).toNat + 1) % 2 ^ 32)
        ++ (Bytes.ofWord (w 3) ++ (Bytes.ofWord (w 4)).take 3))
      ∧ drawn.2.2 = (takeWords Drbg.word 5 (Drbg.ofSeed [1, 2, 3])).2 := by
  have hcut (a b : UInt32) : ([a, b].flatMap Bytes.ofWord).take (11 - 4)
      = Bytes.ofWord a ++ (Bytes.ofWord b).take 3 := rfl
  have hwords : (11 - 4) ⌈/⌉ 4 = 2 := rfl
  have hsuffix : List.range' (1 + 1 * 2) 2 = [3, 4] := rfl
  obtain ⟨hnonces, -, hsource, -⟩ :=
    nonces_are_segments (by decide : 4 < 11) [1, 2, 3] 2
  have hsecond := hnonces 1 (by decide)
  have hlast := hsource (by decide)
  simp only [hwords, hsuffix, List.map_cons, List.map_nil, hcut] at hsecond
  rw [hwords] at hlast
  exact ⟨hsecond, hlast⟩

end Strongbox.Random
