import Strongbox.Bytes

/-!
# Sources of random words

Whoever needs random numbers here needs two things of whoever makes
them: the next 32-bit word, and a number of bytes. `RandomSource` is
that pair, as functions that also return the source after the draw.

Most sources make bytes out of words, and all in the same way: whole
words with the least significant byte first, and one more word for a
tail, of which the bytes past the tail are lost. `takeWords` and
`fillFrom` say so once, for any source of words; `wideFrom` puts two
words together, the first one low. What comes of it is the beginning of
as many words as cover it (`fillFrom_eq`).

## Why words are lost

A tail of less than a word takes a whole word, and so does each request
for itself: two requests for two bytes take two words, one request for
four bytes takes one. This is not an accident of how it is programmed,
it is what a request means, and a law about what two requests give
together has to count words and not bytes. `wordsFor` is the count, and
`fillFrom_eq` the law: the bytes are the beginning of as many words as
cover them.

The loop of `takeWords` gathers its words in reverse. `takeWords_succ`
and `takeWords_succ_last` are the two recursions that proofs go by, one
from each end.
-/

namespace Strongbox.Random

/-- **Something that random numbers can be drawn from.** The two are
asked for apart, because a source may have its own way of making bytes. -/
class RandomSource (ρ : Type) where
  /-- The next 32-bit word, and the source after it. -/
  word : ρ → UInt32 × ρ
  /-- A number of bytes, and the source after them. -/
  fill : ρ → Nat → Bytes × ρ

/-- How many words a number of bytes takes. It is the quotient by four,
rounded up. -/
def wordsFor (n : Nat) : Nat := (n + 3) / 4

section

variable {ρ : Type} (next : ρ → UInt32 × ρ)

/-- **The next `count` words**, and the source after them. The order of
the list is the order in which they were drawn. -/
def takeWords (count : Nat) (r : ρ) : List UInt32 × ρ :=
  go count [] r
where
  /-- Carries the words drawn so far, last one first. -/
  go : Nat → List UInt32 → ρ → List UInt32 × ρ
    | 0, done, r => (done.reverse, r)
    | count + 1, done, r => go count ((next r).1 :: done) (next r).2

/-- What has been drawn before only stands in front of the result. So a
proof about `takeWords` may begin with no word drawn. -/
theorem takeWords_go_eq (count : Nat) (done : List UInt32) (r : ρ) :
    takeWords.go next count done r
      = (done.reverse ++ (takeWords next count r).1,
          (takeWords next count r).2) := by
  unfold takeWords
  induction count generalizing done r with
  | zero => simp [takeWords.go]
  | succ count ih =>
    simp only [takeWords.go]
    rw [ih, ih [_]]
    simp

@[simp] theorem takeWords_zero (r : ρ) : takeWords next 0 r = ([], r) := rfl

/-- The words are drawn one after another. This is the recursion from
the first word on. -/
theorem takeWords_succ (count : Nat) (r : ρ) :
    takeWords next (count + 1) r
      = ((next r).1 :: (takeWords next count (next r).2).1,
          (takeWords next count (next r).2).2) := by
  rw [takeWords, takeWords.go, takeWords_go_eq]
  rfl

/-- The last word comes after all the others. It is the recursion for a
number of bytes with a tail, for which the last word is cut. -/
theorem takeWords_succ_last (count : Nat) (r : ρ) :
    takeWords next (count + 1) r
      = ((takeWords next count r).1 ++ [(next (takeWords next count r).2).1],
          (next (takeWords next count r).2).2) := by
  induction count generalizing r with
  | zero => rw [takeWords_succ, takeWords_zero, takeWords_zero, List.nil_append]
  | succ count ih =>
    rw [takeWords_succ, ih, takeWords_succ next count, List.cons_append]

@[simp] theorem length_takeWords (count : Nat) (r : ρ) :
    (takeWords next count r).1.length = count := by
  induction count generalizing r with
  | zero => rfl
  | succ count ih => simp [takeWords_succ, ih]

/-- Every word has four bytes. So the number of bytes tells the number
of words. -/
theorem length_flatMap_ofWord (words : List UInt32) :
    (words.flatMap Bytes.ofWord).length = 4 * words.length := by
  simp [List.length_flatMap, List.map_const', Nat.mul_comm]

/-- The bytes of the next `count` words. There are four times as many,
whatever the words are. -/
theorem length_flatMap_takeWords (count : Nat) (r : ρ) :
    ((takeWords next count r).1.flatMap Bytes.ofWord).length = 4 * count := by
  rw [length_flatMap_ofWord, length_takeWords]

/-- **A number of bytes from whole words.** A tail that is less than a
word takes one word more, of which the rest is lost. Whole words are
copied, and the tail is cut from the one after them. -/
def fillFrom (r : ρ) (n : Nat) : Bytes × ρ :=
  let (words, r) := takeWords next (n / 4) r
  let whole := words.flatMap Bytes.ofWord
  if n % 4 = 0 then (whole, r)
  else
    let (word, r) := next r
    (whole ++ (Bytes.ofWord word).take (n % 4), r)

/-- **The bytes are the first ones of as many words as cover them.**
With a tail the count is one more than the quotient, and the last word
is the one that is cut; without one, nothing is cut at all. -/
theorem fillFrom_eq (r : ρ) (n : Nat) :
    fillFrom next r n
      = (((takeWords next (wordsFor n) r).1.flatMap Bytes.ofWord).take n,
        (takeWords next (wordsFor n) r).2) := by
  have hwhole := length_flatMap_takeWords next (n / 4) r
  unfold fillFrom
  by_cases htail : n % 4 = 0
  · have hwords : wordsFor n = n / 4 := by unfold wordsFor; omega
    rw [hwords, List.take_of_length_le (by omega)]
    exact if_pos htail
  · have hwords : wordsFor n = n / 4 + 1 := by unfold wordsFor; omega
    rw [hwords, takeWords_succ_last, List.flatMap_append, List.take_append,
      hwhole,
      List.take_of_length_le (by omega), List.flatMap_singleton,
      show n - 4 * (n / 4) = n % 4 by omega]
    exact if_neg htail

/-- **A 64-bit word from two words**, the first one low. The high word
is shifted to its place, and the two are put together by bits. -/
def wideFrom (r : ρ) : UInt64 × ρ :=
  let (low, r) := next r
  let (high, r) := next r
  ((high.toUInt64 <<< 32) ||| low.toUInt64, r)

/-- As many bytes come as were asked for. As many words as cover a
number of bytes have at least as many bytes. -/
@[simp] theorem length_fillFrom (r : ρ) (n : Nat) :
    (fillFrom next r n).1.length = n := by
  have h : n ≤ 4 * wordsFor n := by
    unfold wordsFor
    omega
  rw [fillFrom_eq, List.length_take, length_flatMap_takeWords,
    Nat.min_eq_left h]

end

/-- **A list of words played over and over.** The empty list plays
zeros. It is a source for trying things out, whose words are known. -/
structure Cycle where
  /-- The words. -/
  words : List UInt32
  /-- How many words have been played. -/
  played : Nat
  deriving DecidableEq, Repr

namespace Cycle

/-- A list of words from its beginning. No word has been played. -/
def ofList (words : List UInt32) : Cycle := ⟨words, 0⟩

/-- The next word. After the last word of the list comes the first one
again. -/
def next (c : Cycle) : UInt32 × Cycle :=
  (c.words.getD (c.played % c.words.length) 0,
    { c with played := c.played + 1 })

/-- **A list of words is a source of words**, from which bytes are made
as usual. -/
instance : RandomSource Cycle where
  word := next
  fill := fillFrom next

end Cycle

end Strongbox.Random
