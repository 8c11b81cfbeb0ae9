import Mathlib.Order.Bounds.Basic
import Strongbox.Proofs.Buffer

/-!
# The room that a buffer takes

A buffer moves to a larger row of slots when its elements do not fit any
more, and to no other row: what it takes then is the next power of two,
from whatever number of slots it had. `roomFor` is this rule, for one
move. Two moves come to the same as one to the larger of the two lengths
(`roomFor_roomFor`), since nothing between a number and the power of two
above it needs another one; so a history of moves, with any shortening
in between, comes to a single move to the largest length that there has
been.

`capacity_eq_of_peak` says this of every history: the number of slots is
that of the origin, if the buffer has never been longer, and else the
smallest power of two that is not less than its largest length. It
follows that it does not matter how the buffer came to that length, that
slots are never given up, and that less than half of a row is taken in
vain.

## From one move to all

A history of changes is long, and what has to be remembered of it is one
number. `peak` is defined along the history, as the largest length that
there has been; `isGreatest_peak` says what it is without a recursion,
the greatest among the lengths after each part of the history. The
induction needs that a change makes room for the length it leads to and
for no other (`capacity_change`), and that making room twice is making
room for the larger length.

The changes that shorten a buffer, and those that write in place, make
room for a length that is there already, and so they do nothing to its
slots.
-/

namespace Strongbox

/-- **The smallest power of two** is what its name says. This is its
meaning, with no logarithm in it. -/
theorem isLeast_ceilPowerOfTwo (n : Nat) :
    IsLeast {p | n ≤ p ∧ ∃ k, p = 2 ^ k} (ceilPowerOfTwo n) := by
  refine ⟨⟨le_ceilPowerOfTwo n, ?_⟩, ?_⟩
  · unfold ceilPowerOfTwo
    by_cases hn : n ≤ 1
    · exact ⟨0, if_pos hn⟩
    · exact ⟨_, (if_neg hn).trans (Nat.one_shiftLeft _)⟩
  · rintro _ ⟨hle, k, rfl⟩
    exact ceilPowerOfTwo_le hle

/-- Less than half of a power of two is lost. Otherwise half of it would
be enough as well. -/
theorem ceilPowerOfTwo_lt {n : Nat} (hn : 0 < n) :
    ceilPowerOfTwo n < 2 * n := by
  obtain ⟨⟨_, k, hpower⟩, hleast⟩ := isLeast_ceilPowerOfTwo n
  rw [hpower]
  cases k with
  | zero => omega
  | succ k =>
    -- the power of two before it is not large enough any more
    have hbefore : 2 ^ k < n := Nat.lt_of_not_le fun hle => by
      have hle' : 2 ^ (k + 1) ≤ 2 ^ k := hpower ▸ hleast ⟨hle, k, rfl⟩
      exact absurd hle'
        (Nat.not_le.mpr (Nat.pow_lt_pow_right (by decide) (Nat.lt_succ_self k)))
    rw [Nat.pow_succ, Nat.mul_comm]
    exact Nat.mul_lt_mul_of_pos_left hbefore (by decide)

/-- A number between another and the power of two above it has that
power of two above it. A buffer that has moved for the smaller one need
not move for the larger one. -/
theorem ceilPowerOfTwo_eq_of_le {m n : Nat} (hle : m ≤ n)
    (hn : n ≤ ceilPowerOfTwo m) :
    ceilPowerOfTwo n = ceilPowerOfTwo m := by
  obtain ⟨⟨_, hpower⟩, _⟩ := isLeast_ceilPowerOfTwo m
  exact Nat.le_antisymm ((isLeast_ceilPowerOfTwo n).2 ⟨hn, hpower⟩)
    ((isLeast_ceilPowerOfTwo m).2
      ⟨Nat.le_trans hle (le_ceilPowerOfTwo n), (isLeast_ceilPowerOfTwo n).1.2⟩)

namespace Buffer

variable {α : Type}

/-- **The slots that a row comes to** when there is to be room in it for
a number of elements. It is a rule about numbers, with no buffer in it. -/
def roomFor (slots length : Nat) : Nat :=
  if length ≤ slots then slots else ceilPowerOfTwo length

/-- Room is never given up. The number of slots stays, or goes up to a
power of two. -/
theorem le_roomFor (slots length : Nat) : slots ≤ roomFor slots length := by
  unfold roomFor
  by_cases hroom : length ≤ slots
  · rw [if_pos hroom]
  · rw [if_neg hroom]
    exact Nat.le_trans (Nat.le_of_not_le hroom) (le_ceilPowerOfTwo length)

/-- **Making room twice is making room once**, for the larger length.
Either of the two moves may be none. -/
theorem roomFor_roomFor (slots m n : Nat) :
    roomFor (roomFor slots m) n = roomFor slots (max m n) := by
  unfold roomFor
  by_cases hm : m ≤ slots
  · have hmax : max m n ≤ slots ↔ n ≤ slots :=
      Nat.max_le.trans (and_iff_right hm)
    rw [if_pos hm]
    by_cases hn : n ≤ slots
    · rw [if_pos hn, if_pos (hmax.mpr hn)]
    · rw [if_neg hn, if_neg (mt hmax.mp hn),
        Nat.max_eq_right (Nat.le_trans hm (Nat.le_of_not_le hn))]
  · rw [if_neg hm, if_neg (mt (Nat.le_trans (Nat.le_max_left m n)) hm)]
    by_cases hn : n ≤ ceilPowerOfTwo m
    · rw [if_pos hn]
      exact (ceilPowerOfTwo_eq_of_le (Nat.le_max_left m n)
        (Nat.max_le.mpr ⟨le_ceilPowerOfTwo m, hn⟩)).symm
    · rw [if_neg hn,
        Nat.max_eq_right
          (Nat.le_trans (le_ceilPowerOfTwo m) (Nat.le_of_not_le hn))]

/-- Room that there is stays. It is the case of a buffer that does not
move. -/
theorem roomFor_of_le {slots length : Nat} (hroom : length ≤ slots) :
    roomFor slots length = slots :=
  if_pos hroom

section

variable [Wipeable α]

/-- The slots that a buffer is begun with. A list and a source give as
many as they have elements. -/
def Origin.slots : Origin α → Nat
  | empty => 0
  | withCapacity n => n
  | ofList elements => elements.length
  | drain source => source.length

/-- **The largest length** that a buffer has in the course of some
changes, from before the first to after the last. It is never less than
the length at the end. -/
def peak (b : Buffer α) : List (Change α) → Nat
  | [] => b.length
  | c :: cs => max b.length (peak (b.change c) cs)

/-- The first length is one of those. So a buffer that is never longer
than at its beginning has this for its peak. -/
theorem length_le_peak (b : Buffer α) (cs : List (Change α)) :
    b.length ≤ peak b cs := by
  cases cs with
  | nil => exact Nat.le_refl _
  | cons c cs => exact Nat.le_max_left _ _

/-- **The peak is the largest length** at the end of any part of the
changes. By induction over the changes, with the first one in front of
every part. -/
theorem isGreatest_peak (b : Buffer α) (cs : List (Change α)) :
    IsGreatest
      {n | ∃ past, past <+: cs ∧ n = (past.foldl Buffer.change b).length}
      (peak b cs) := by
  induction cs generalizing b with
  | nil =>
    refine ⟨⟨[], List.prefix_refl [], rfl⟩, ?_⟩
    rintro _ ⟨past, hpast, rfl⟩
    rw [List.prefix_nil.mp hpast]
    exact Nat.le_refl _
  | cons c cs ih =>
    obtain ⟨⟨past, hpast, hpeak⟩, hgreatest⟩ := ih (b.change c)
    refine ⟨?_, ?_⟩
    · obtain hle | hle := Nat.le_total b.length (peak (b.change c) cs)
      · exact ⟨c :: past, List.cons_prefix_cons.mpr ⟨rfl, hpast⟩,
          (Nat.max_eq_right hle).trans hpeak⟩
      · exact ⟨[], List.nil_prefix, Nat.max_eq_left hle⟩
    · rintro _ ⟨past', hpast', rfl⟩
      cases past' with
      | nil => exact Nat.le_max_left _ _
      | cons c' past' =>
        obtain ⟨rfl, hbefore⟩ := List.cons_prefix_cons.mp hpast'
        exact Nat.le_trans (hgreatest ⟨past', hbefore, rfl⟩)
          (Nat.le_max_right _ _)

namespace Holds

variable {b : Buffer α} {xs : List α}

/-! ## One change -/

/-- **Making room** takes the slots that there are or the next power of
two. The elements must fit what is asked for, which they always do. -/
theorem capacity_reserve (h : Holds xs b) {needed : Nat}
    (hneeded : b.length ≤ needed) :
    (b.reserve needed).capacity = roomFor b.capacity needed := by
  unfold Buffer.reserve roomFor
  by_cases hroom : needed ≤ b.capacity
  · rw [if_pos hroom, if_pos hroom]
  · rw [if_neg hroom, if_neg hroom]
    show (b.toList ++ wiped (ceilPowerOfTwo needed - b.length)).length
      = ceilPowerOfTwo needed
    rw [List.length_append, length_wiped, h.toList_eq, ← h.length_eq]
    exact Nat.add_sub_cancel' (Nat.le_trans hneeded (le_ceilPowerOfTwo needed))

/-- Elements that are appended take the slots that were made room for.
The new length is what room was made for. -/
theorem capacity_append (h : Holds xs b) (elements : List α) :
    (b.append elements).capacity
      = roomFor b.capacity (b.append elements).length := by
  obtain ⟨hheld, hroom⟩ := h.reserve (b.length + elements.length)
  have hlength : (b.append elements).length = b.length + elements.length := by
    rw [(h.append elements).length_eq, List.length_append, h.length_eq]
  rw [hlength, ← h.capacity_reserve (Nat.le_add_right _ _)]
  have hkept : (b.reserve (b.length + elements.length)).length = b.length :=
    hheld.length_eq.trans h.length_eq.symm
  show List.length (_ ++ elements ++ List.drop _ _) = _
  rw [List.length_append, List.length_append, List.length_drop, hheld.toList_eq,
    ← hheld.length_eq, hkept]
  exact Nat.add_sub_cancel' hroom

/-- Shortening gives up no slot. The slots behind the new end are wiped
and stay. -/
theorem capacity_truncate (h : Holds xs b) (n : Nat) :
    (b.truncate n).capacity = b.capacity := by
  unfold Buffer.truncate
  by_cases hn : b.length ≤ n
  · rw [if_pos hn]
  · rw [if_neg hn]
    have hlength := h.length_le
    unfold Buffer.capacity at hlength
    show List.length (_ ++ _ ++ b.slots.drop b.length) = b.slots.length
    rw [List.length_append, List.length_append, List.length_take, length_wiped,
      List.length_drop]
    omega

/-- Elements replaced by as many others take their slots. It is the case
of filling and of reversing. -/
theorem capacity_withElements (h : Holds xs b) {elements : List α}
    (hlength : elements.length = xs.length) :
    (b.withElements elements).capacity = b.capacity := by
  have hle := h.length_le
  show (elements ++ b.spare).length = b.capacity
  rw [List.length_append, h.spare_eq, length_wiped, hlength, ← h.length_eq]
  exact Nat.add_sub_cancel' hle

/-- **Every change makes room for the length that it leads to**, and for
no more. There is a case for each change, and in most of them the length
does not go up. -/
theorem capacity_change (h : Holds xs b) (c : Change α) :
    (b.change c).capacity = roomFor b.capacity (b.change c).length := by
  -- what stays in its row has room there
  have hstays {b' : Buffer α} {ys : List α} (h' : Holds ys b')
      (hkept : b'.capacity = b.capacity) : b'.capacity
        = roomFor b.capacity b'.length :=
    hkept.trans (roomFor_of_le (hkept ▸ h'.length_le)).symm
  have hresize (n : Nat) (value : α) :
      (b.resizeWith n value).capacity
        = roomFor b.capacity (b.resizeWith n value).length := by
    unfold Buffer.resizeWith
    by_cases hn : n ≤ b.length
    · rw [if_pos hn]
      exact hstays (h.truncate n) (h.capacity_truncate n)
    · rw [if_neg hn]
      exact h.capacity_append _
  cases c with
  | push value => exact h.capacity_append [value]
  | append elements => exact h.capacity_append elements
  | truncate n => exact hstays (h.truncate n) (h.capacity_truncate n)
  | resize n => exact hresize n Wipeable.zero
  | resizeWith n value => exact hresize n value
  | clear => exact hstays (clear b) (length_wiped b.capacity)
  | set i value =>
    refine hstays (h.set i value) ?_
    show ((b.set? i value).getD b).capacity = b.capacity
    unfold Buffer.set?
    by_cases hi : i < b.length
    · rw [if_pos hi]
      exact List.length_set
    · rw [if_neg hi]
      rfl
  | fill value =>
    exact hstays (h.change (.fill value))
      (h.capacity_withElements (List.length_replicate.trans h.length_eq))
  | reverse =>
    exact hstays (h.change .reverse)
      (h.capacity_withElements
          (List.length_reverse.trans (congrArg List.length h.toList_eq)))

/-! ## Histories -/

/-- **A history of changes makes room for its peak.** By induction over
the changes, the moves come together to one. -/
theorem capacity_changes (h : Holds xs b) (cs : List (Change α)) :
    (cs.foldl Buffer.change b).capacity = roomFor b.capacity (peak b cs) := by
  induction cs generalizing xs b with
  | nil => exact (roomFor_of_le h.length_le).symm
  | cons c cs ih =>
    have hpeak : peak (b.change c) cs
      = max (b.change c).length (peak (b.change c) cs) :=
      (Nat.max_eq_right (length_le_peak _ cs)).symm
    calc ((c :: cs).foldl Buffer.change b).capacity
        = roomFor (b.change c).capacity (peak (b.change c) cs) :=
          ih (h.change c)
      _ = roomFor (roomFor b.capacity (b.change c).length)
        (peak (b.change c) cs) := by
          rw [h.capacity_change c]
      _ = roomFor b.capacity (peak (b.change c) cs) := by
        rw [roomFor_roomFor, ← hpeak]
      _ = roomFor (roomFor b.capacity b.length) (peak (b.change c) cs) := by
          rw [roomFor_of_le h.length_le]
      _ = roomFor b.capacity (peak b (c :: cs)) := roomFor_roomFor ..

end Holds

/-- A buffer is begun with the slots of its origin. A buffer that was
drained from a source has as many as the source. -/
theorem capacity_origin (origin : Origin α) :
    origin.buffer.capacity = origin.slots := by
  have hrow (elements : List α) : (ofList elements).capacity
    = elements.length := by
    rw [ofList, append_withCapacity]
    rfl
  cases origin with
  | empty => rfl
  | withCapacity n => exact length_wiped n
  | ofList elements => exact hrow elements
  | drain source => exact hrow source

/-- **How many slots a buffer has** depends on how many it was begun
with and on its largest length. If it was begun with enough, they are
still these; otherwise they are the smallest power of two that is
enough. They never become fewer, other changes to another buffer that
come to the same largest length come to the same slots, and a row that
is not the first has less than twice as many slots as have been in use. -/
theorem capacity_eq_of_peak (origin : Origin α) (cs : List (Change α)) :
    let c := origin.slots
    let M := peak origin.buffer cs
    let b := cs.foldl Buffer.change origin.buffer
    IsGreatest
      {n | ∃ past,
        past <+: cs ∧ n = (past.foldl Buffer.change origin.buffer).length} M
      ∧ (M ≤ c → b.capacity = c)
      ∧ (c < M → IsLeast {p | M ≤ p ∧ ∃ k, p = 2 ^ k} b.capacity)
      ∧ (∀ past, past <+: cs →
        (past.foldl Buffer.change origin.buffer).capacity ≤ b.capacity)
      ∧ (∀ (origin' : Origin α) (cs' : List (Change α)), origin'.slots = c →
        peak origin'.buffer cs' = M →
        (cs'.foldl Buffer.change origin'.buffer).capacity = b.capacity)
      ∧ (b.capacity ≠ c → (∃ k, b.capacity = 2 ^ k) ∧ b.capacity < 2 * M) := by
  intro c M b
  have heq (origin : Origin α) (cs : List (Change α)) :
      (cs.foldl Buffer.change origin.buffer).capacity
        = roomFor origin.slots (peak origin.buffer cs) := by
    rw [(Holds.origin origin).capacity_changes cs, capacity_origin]
  have hb : b.capacity = roomFor c M := heq origin cs
  have hgrown (hlt : c < M) : b.capacity = ceilPowerOfTwo M :=
    hb.trans (if_neg (Nat.not_le.mpr hlt))
  refine ⟨isGreatest_peak _ cs, fun hle => hb.trans (roomFor_of_le hle),
    fun hlt => ?_, ?_,
    fun origin' cs' hslots hpeak => ?_, fun hmoved => ?_⟩
  · rw [hgrown hlt]
    exact isLeast_ceilPowerOfTwo M
  · rintro past ⟨later, rfl⟩
    have hpast := (Holds.origin origin).changes past
    show _ ≤ Buffer.capacity (List.foldl _ _ _)
    rw [List.foldl_append, hpast.capacity_changes later]
    exact le_roomFor _ _
  · rw [heq origin' cs', hslots, hpeak, hb]
  · have hlt : c < M :=
      Nat.lt_of_not_le fun hle => hmoved (hb.trans (roomFor_of_le hle))
    rw [hgrown hlt]
    exact ⟨(isLeast_ceilPowerOfTwo M).1.2,
      ceilPowerOfTwo_lt (Nat.zero_lt_of_lt hlt)⟩

/-- Three slots do not hold five elements. Taken at once, and given up
again, they lead to as many slots as one after the other. The peak is
five in both cases, and eight is the power of two above it. -/
theorem capacity_eq_of_peak_five :
    let b := [.append [1, 2, 3, 4, 5], .truncate 2, .push 6].foldl Buffer.change
      (Origin.withCapacity (α := UInt8) 3).buffer
    let b' := [.push 4, .push 5, .clear].foldl Buffer.change
      (Origin.ofList ([1, 2, 3] : List UInt8)).buffer
    IsLeast {p | 5 ≤ p ∧ ∃ k, p = 2 ^ k} b.capacity
      ∧ b'.capacity = b.capacity
      ∧ b.capacity < 2 * 5 := by
  obtain ⟨_, _, hgrown, _, hother, hmoved⟩ := capacity_eq_of_peak
    (Origin.withCapacity (α := UInt8) 3)
      [.append [1, 2, 3, 4, 5], .truncate 2, .push 6]
  exact ⟨hgrown (by decide),
    hother (.ofList [1, 2, 3]) [.push 4, .push 5, .clear] rfl (by decide),
    (hmoved (by decide)).2⟩

end

end Buffer

end Strongbox
