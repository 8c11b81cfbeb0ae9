import Strongbox.Proofs.Keystream

/-!
# The blocks that a keystream draws

A keystream has the cipher encrypt a counter block whenever it runs out
of bytes. `Keystream.drawn` lists these blocks for a piece of a message:
it takes the same steps as `Keystream.apply` and notes the counter block
of every step that is not served from the block at hand. That nothing
escapes it is `apply_congr`: a cipher that agrees on the blocks drawn
gives the same result, whatever it does with the other ones.

`After.drawn` says which blocks they are. Cut into pieces of any length,
a message draws the counter blocks in their order, each of them once,
and as many as it takes to cover it.

## Order and repetition

That the blocks drawn are the first ones of a count has two uses. Their
order and number tell which blocks the cipher is given for a message,
and with the law of counting that no block comes twice, they tell that
no block is given to it twice. Both are about a list, in which a block
that is drawn twice would stand twice.

`After.drawn` is stated as an equation between lists, what has been
drawn before with what is drawn now, so that the pieces of a message add
up by themselves.
-/

namespace Strongbox.Keystream

variable (cipher next : Block → Block)

/-- **The counter blocks encrypted for a piece of `n` bytes**, in order.
The recursion is over the bytes of the piece. -/
def drawn (k : Keystream) : (n : Nat) → List Block
  | 0 => []
  | n + 1 =>
    (if k.spent < 16 then [] else [k.counter]) ++ (k.pull cipher next).2.drawn n

/-- **The first `n` blocks** that are counted from a first one. The
first one is the block itself, not counted on. -/
def counters (first : Block) (n : Nat) : List Block :=
  (List.range n).map fun i => Nat.repeat next i first

/-- The block before the first one comes first if the counting begins
with it. In one mode the block before the first one is kept for the tag. -/
theorem counters_succ (before : Block) (n : Nat) :
    counters next before (n + 1) = before :: counters next (next before) n := by
  unfold counters
  rw [List.range_succ_eq_map, List.map_cons, List.map_map]
  exact congrArg (before :: ·)
    (List.map_congr_left fun i _ => (repeat_next i before).symm)

variable {cipher next}

/-- A byte depends on the cipher at the block that is drawn for it. If
the byte is served from the block at hand, nothing is asked of the
cipher. -/
theorem pull_congr {cipher' : Block → Block} (k : Keystream)
    (h : ¬k.spent < 16 → cipher' k.counter = cipher k.counter) :
    k.pull cipher' next = k.pull cipher next := by
  unfold pull
  split
  · rfl
  · next hs => rw [h hs]

/-- **What a keystream does to a piece depends on the cipher at the
blocks drawn**, and nowhere else. By induction over the piece, byte
after byte. -/
theorem apply_congr {cipher' : Block → Block} (k : Keystream) (piece : Bytes)
    (h : ∀ b ∈ k.drawn cipher next piece.length, cipher' b = cipher b) :
    k.apply cipher' next piece = k.apply cipher next piece := by
  induction piece generalizing k with
  | nil => rfl
  | cons byte rest ih =>
    rw [List.length_cons, drawn] at h
    have hpull : k.pull cipher' next = k.pull cipher next :=
      k.pull_congr fun hs => h k.counter (by simp [hs])
    rw [apply_cons, apply_cons, hpull,
      ih _ fun b hb => h b (List.mem_append_right _ hb)]

/-- **A message draws the counter blocks in their order, and each
once.** What has been drawn for the first `j` bytes, and what is drawn
for `n` more, is what is drawn for all of them. A block is drawn by the
byte at its beginning, and then serves fifteen more. -/
theorem After.drawn {first : Block} {j : Nat} {k : Keystream}
    (h : After cipher next first j k) (n : Nat) :
    counters next first ((j + 15) / 16) ++ k.drawn cipher next n
      = counters next first ((j + n + 15) / 16) := by
  induction n generalizing j k with
  | zero => exact List.append_nil _
  | succ n ih =>
    have hrest := ih h.pull.2
    rw [Nat.add_right_comm j 1 n] at hrest
    rw [Keystream.drawn, ← Nat.add_assoc j n 1, ← hrest, ← List.append_assoc]
    refine congrArg (· ++ _) ?_
    rw [h.spent]
    by_cases hj : j % 16 = 0
    · -- The block at hand is spent, and the next one is drawn.
      have hq : (j + 1 + 15) / 16 = (j + 15) / 16 + 1 := by omega
      rw [if_pos hj, if_neg (by decide), h.counter, hq]
      unfold counters
      rw [List.range_succ, List.map_append, List.map_singleton]
    · have hq : (j + 1 + 15) / 16 = (j + 15) / 16 := by omega
      rw [if_neg hj, if_pos (Nat.mod_lt j (by decide)), List.append_nil, hq]

end Strongbox.Keystream
