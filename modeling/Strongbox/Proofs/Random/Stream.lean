import Strongbox.Proofs.Bytes
import Strongbox.Proofs.Random.WordQueue
import Strongbox.Random.Rng

/-!
# Every request is a piece of a stream

A source of words that is left to itself has one stream of words before
it, `wordAt`, and a number of words drawn from it is a `segment` of the
stream, from its beginning. After that the stream goes on where the
segment ended.

A generator makes all its answers out of words, and so every call to it
that brings no new material takes a segment of its stream: as many words
as cover the bytes that are asked for, of which the answer is the
beginning (`Drbg.step_eq_draw`). The same holds of a generator with its
sources (`Rng.step_eq_draw`), for every call that keeps the stream.

## Counting words

`takeWords_add` is the one law from which the others come: to draw `m`
words and then `n` is to draw `m + n`. With it a position in the stream
means the same before and after a draw, up to a shift, and what one
request takes and the next one gets can be added up. It is a law about
words. Bytes have none like it, since a request loses what is left of
its last word.

`draw` is the common form of all requests: a number of bytes from the
beginning of the stream, and the source behind the words that cover
them. A word is a draw of four bytes and a 64-bit word one of eight, so
that a theorem about draws is a theorem about every call that keeps the
stream.
-/

namespace Strongbox.Random

/-! ## Streams -/

section

variable {ρ : Type} (next : ρ → UInt32 × ρ)

/-- **The word of a number in the stream of a source**, counted from
zero. It is said by drawing the words before it, which is the only way
to get there. -/
def wordAt (r : ρ) (k : Nat) : UInt32 := (next (takeWords next k r).2).1

/-- **A number of words of the stream**, from one of them on. Segments
are lists of positions, mapped; two of them that have no position in
common have no word in common either. -/
def segment (r : ρ) (first count : Nat) : List UInt32 :=
  (List.range' first count).map (wordAt next r)

@[simp] theorem length_segment (r : ρ) (first count : Nat) :
    (segment next r first count).length = count := by
  rw [segment, List.length_map, List.length_range']

/-- Two segments, one behind the other. It is the law of ranges of
positions. -/
theorem segment_add (r : ρ) (first m n : Nat) :
    segment next r first (m + n)
      = segment next r first m ++ segment next r (first + m) n := by
  rw [segment, ← List.range'_append_1, List.map_append]
  rfl

/-- After some words the stream goes on behind them. The words of the
second draw come behind those of the first. -/
theorem takeWords_add (m n : Nat) (r : ρ) :
    takeWords next (m + n) r
      = ((takeWords next m r).1 ++ (takeWords next n (takeWords next m r).2).1,
          (takeWords next n (takeWords next m r).2).2) := by
  induction m generalizing r with
  | zero => rw [Nat.zero_add, takeWords_zero, List.nil_append]
  | succ m ih =>
    rw [Nat.succ_add, takeWords_succ, ih, takeWords_succ next m,
      List.cons_append]

/-- **Behind some words the stream is the same stream**, with its
numbers shifted. -/
theorem wordAt_takeWords (m : Nat) (r : ρ) (k : Nat) :
    wordAt next (takeWords next m r).2 k = wordAt next r (m + k) := by
  rw [wordAt, wordAt, takeWords_add]

/-- **A segment behind some words** is the one that begins as much
later. It is the law of `wordAt`, for all positions at once. -/
theorem segment_takeWords (m : Nat) (r : ρ) (first count : Nat) :
    segment next (takeWords next m r).2 first count
      = segment next r (m + first) count := by
  unfold segment
  rw [← List.map_add_range', List.map_map]
  exact List.map_congr_left fun k _ => wordAt_takeWords next m r k

/-- **Words are drawn from the beginning of the stream.** By induction
on their number: the last word is the one at its position. -/
theorem takeWords_eq_segment (count : Nat) (r : ρ) :
    (takeWords next count r).1 = segment next r 0 count := by
  induction count with
  | zero => rfl
  | succ count ih =>
    rw [takeWords_succ_last, ih, segment, segment, List.range'_1_concat,
      List.map_append,
      Nat.zero_add]
    rfl

/-- **The bytes that are drawn from a source**, so many from the stream
as it lies before it, and the source after the words that cover them. A
draw of no bytes leaves the source as it is. -/
def draw (r : ρ) (size : Nat) : Bytes × ρ :=
  (((segment next r 0 (wordsFor size)).flatMap Bytes.ofWord).take size,
    (takeWords next (wordsFor size) r).2)

/-- Bytes that are made out of words in the usual way are a draw: whole
words, and of the last one as many bytes as are still wanted. -/
theorem fillFrom_eq_draw (r : ρ) (n : Nat) :
    fillFrom next r n = draw next r n := by
  rw [fillFrom_eq, takeWords_eq_segment, draw]

@[simp] theorem draw_zero (r : ρ) : draw next r 0 = ([], r) := rfl

/-- A word is four bytes, and no byte of it is lost, so that reading a
word and filling four bytes are the same. -/
theorem draw_word (r : ρ) :
    draw next r 4 = (Bytes.ofWord (next r).1, (next r).2) :=
  Prod.ext (List.append_nil (Bytes.ofWord (next r).1)) rfl

/-- A 64-bit word is eight bytes, those of the word drawn first in
front. The low word stands first among the bytes, as its least
significant byte does. -/
theorem draw_wide (r : ρ) :
    draw next r 8
      = (Bytes.littleEndian 8 (wideFrom next r).1.toNat,
        (wideFrom next r).2) := by
  have hvalue : (wideFrom next r).1
      = UInt64.ofNat ((next r).1.toNat + 256 ^ 4 * (next (next r).2).1.toNat) :=
    shiftLeft_or_eq_ofNat (next r).1 (next (next r).2).1
  have hbytes : Bytes.littleEndian 8 (wideFrom next r).1.toNat
      = Bytes.ofWord (next r).1 ++ Bytes.ofWord (next (next r).2).1 := by
    rw [hvalue, UInt64.toNat_ofNat']
    show Bytes.littleEndian 8 (_ % 256 ^ 8) = _
    rw [Bytes.littleEndian_mod]
    exact Bytes.littleEndian_add 4 4 (next r).1.toNat_lt _
  have hsegment : (segment next r 0 2).flatMap Bytes.ofWord
      = Bytes.ofWord (next r).1 ++ Bytes.ofWord (next (next r).2).1 :=
    congrArg (Bytes.ofWord (next r).1 ++ ·) (List.append_nil _)
  rw [hbytes, draw]
  show (((segment next r 0 2).flatMap Bytes.ofWord).take 8, (next (next r).2).2)
    = _
  rw [hsegment, List.take_of_length_le (by simp)]
  rfl

end

/-! ## Calls that keep the stream -/

/-- **Whether a call leaves the stream as it is**, but for what it takes
from it. New material makes a new stream; everything else goes on in the
old one. -/
def Drbg.Call.keepsStream : Drbg.Call → Bool
  | reseed _ _ => false
  | word | wide | fill _ | describe => true

/-- **A call to a generator is a draw** of as many bytes as it asks for.
A description asks for none. -/
theorem Drbg.step_eq_draw [KeyedHash] (d : Drbg) {call : Drbg.Call}
    (h : call.keepsStream = true) :
    ((d.step call).1.output, (d.step call).2) = draw word d call.size := by
  cases call with
  | word => exact (draw_word word d).symm
  | wide => exact (draw_wide word d).symm
  | fill n => exact fillFrom_eq_draw word d n
  | reseed label material => exact Bool.noConfusion h
  | describe => rfl

/-- **Whether a call leaves the stream as it is.** A refused call does.
An empty seed is refused, and a call to the generator itself is judged
by that call. -/
def Rng.Call.keepsStream : Rng.Call → Bool
  | seed material => material.isEmpty
  | randomSeed => false
  | generator call => call.keepsStream
  | bytes _ | describe => true

/-- **A call to a generator with its sources is a draw** of as many
bytes as it asks for. Neither the sources nor the host have a part in
it. Only a call for a new draw would ask them. -/
theorem Rng.step_eq_draw (r : Rng) (host : Host) {call : Rng.Call}
    (h : call.keepsStream = true) :
    (r.step host call).1.output = (draw Drbg.word r.drbg call.size).1
      ∧ (r.step host call).2
        = ({ r with drbg := (draw Drbg.word r.drbg call.size).2 }, host) := by
  cases call with
  | seed material =>
    have hseed : r.seed material = .error .emptySeed := if_pos h
    have hstep : r.step host (.seed material)
      = (.refused .emptySeed, r, host) := by
      simp only [step, hseed]
    rw [hstep, show (Call.seed material).size = 0 from rfl, draw_zero]
    exact ⟨rfl, rfl⟩
  | randomSeed => exact Bool.noConfusion h
  | bytes n =>
    simp only [step, bytes]
    by_cases hn : n = 0
    · rw [if_pos hn, hn]
      exact ⟨rfl, rfl⟩
    · rw [if_neg hn]
      show (r.drbg.fill n).1 = _
        ∧ ({ r with drbg := (r.drbg.fill n).2 }, host) = _
      rw [Drbg.fill, fillFrom_eq_draw]
      exact ⟨rfl, rfl⟩
  | generator call =>
    have hdraw := r.drbg.step_eq_draw h
    exact ⟨congrArg Prod.fst hdraw,
      congrArg (fun d => ({ r with drbg := d }, host))
        (congrArg Prod.snd hdraw)⟩
  | describe => exact ⟨rfl, rfl⟩

end Strongbox.Random
