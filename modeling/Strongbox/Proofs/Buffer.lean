import Mathlib.Algebra.Group.Nat.Defs
import Strongbox.Buffer

/-!
# A buffer is a list that leaves nothing behind

A `Buffer` changes its slots in place, moves to a larger row when it has
to, and keeps the row it has when it shrinks. A list does none of this.
The main statement, `elements_eq_and_spare_wiped`, says that an onlooker
cannot tell the two apart by their elements, and that one who sees every
slot, spare ones included, learns nothing more: whatever has been done
to a buffer, what lies behind its elements is wiped.

`Holds` is the invariant, a buffer that holds a list. It fixes every
slot of the buffer but their number, so that each operation is one
equation between rows of slots. `Holds.change` is the step, with a case
for each operation, and `Holds.changes` what a history of them comes to.

## The invariant

A buffer holds a list if its slots are the elements of the list and
behind them nothing but wiped slots, and if it counts so many elements.
How many slots there are is left open, and it is the only thing that is:
for a given number of slots there is one such buffer. The laws about
what can be seen of a buffer (`toList_eq`, `spare_eq`, `slot_eq`) read
it off.

## Moving

An operation that finds no room takes a new row, into which the elements
are copied behind each other; the new slots behind them are wiped from
the beginning. An operation that finds room works in the row there is,
where the slots behind the elements are wiped by the invariant. After
`reserve` the two cases look alike, and no other operation tells them
apart.
-/

namespace Strongbox

/-- A power of two that is large enough is not exceeded by the smallest
that is. So it is the smallest one, as its name says. -/
theorem ceilPowerOfTwo_le {n k : Nat} (h : n ≤ 2 ^ k) :
    ceilPowerOfTwo n ≤ 2 ^ k := by
  unfold ceilPowerOfTwo
  split
  · exact Nat.one_le_two_pow
  · have hlog : (n - 1).log2 < k := (Nat.log2_lt (by omega)).mpr (by omega)
    rw [Nat.one_shiftLeft]
    exact Nat.pow_le_pow_right (by decide) hlog

namespace Buffer

variable {α : Type} [Wipeable α]

/-- **What a buffer is begun with**, as a list. A number of slots is no
element. -/
def Origin.elements : Origin α → List α
  | empty | withCapacity _ => []
  | ofList elements => elements
  | drain source => source

@[simp] theorem length_wiped (n : Nat) : (wiped n : List α).length = n :=
  List.length_replicate

/-- A wiped row goes on wiped. What is given up joins the slots that
were spare before. -/
theorem wiped_append_wiped (m n : Nat) :
    (wiped m ++ wiped n : List α) = wiped (m + n) :=
  List.replicate_append_replicate

@[simp] theorem drop_wiped (m n : Nat) :
    (wiped n : List α).drop m = wiped (n - m) :=
  List.drop_replicate

/-! ## A row of just the right size -/

/-- Elements that fill a row leave no slot over. No row has to be left
for it, since there is room for all of them. -/
theorem append_withCapacity (elements : List α) :
    (withCapacity elements.length).append elements
      = ⟨elements, elements.length⟩ := by
  have hroom :
    (withCapacity elements.length : Buffer α).reserve (0 + elements.length)
      = withCapacity elements.length :=
    if_pos (by rw [Nat.zero_add]; exact Nat.le_of_eq (length_wiped _).symm)
  unfold append
  dsimp only
  rw [show (withCapacity elements.length : Buffer α).length = 0 from rfl, hroom]
  show (⟨elements ++ (wiped elements.length).drop (0 + elements.length),
      0 + elements.length⟩
    : Buffer α) = _
  rw [Nat.zero_add, drop_wiped, Nat.sub_self]
  exact congrArg (Buffer.mk · _) (List.append_nil elements)

/-- A row of a number of slots that is brought to as many elements. The
zeros it is filled up with are those that are there. -/
theorem resize_withCapacity (n : Nat) :
    (withCapacity n : Buffer α).resize n = ⟨wiped n, n⟩ := by
  unfold resize resizeWith
  by_cases hn : n ≤ (withCapacity n : Buffer α).length
  · obtain rfl : n = 0 := Nat.le_zero.mp hn
    rfl
  · rw [if_neg hn]
    show (withCapacity n).append (wiped n) = _
    have happend := append_withCapacity (wiped n : List α)
    rwa [length_wiped] at happend

/-- **Elements written into a row that was made for them** are the
buffer of those elements. This is how a key is made whose bytes come
later. -/
theorem withElements_resize_withCapacity (elements : List α) :
    ((withCapacity elements.length).resize elements.length).withElements
    elements
      = ofList elements := by
  rw [resize_withCapacity, ofList, append_withCapacity]
  show (⟨elements ++ (wiped elements.length).drop elements.length, _⟩ : Buffer
      α) = _
  rw [drop_wiped, Nat.sub_self]
  exact congrArg (Buffer.mk · _) (List.append_nil elements)

/-- **A buffer that holds a list**: the elements come first, and every
slot after them is wiped. It is the invariant of everything that is done
to a buffer. -/
structure Holds (xs : List α) (b : Buffer α) : Prop where
  /-- The buffer counts its elements. -/
  length_eq : b.length = xs.length
  /-- The slots are the elements and, up to the capacity, wiped ones. -/
  slots_eq : ∃ n, b.slots = xs ++ wiped n

namespace Holds

variable {xs : List α} {b : Buffer α}

/-! ## What can be seen of a buffer -/

theorem toList_eq (h : Holds xs b) : b.toList = xs := by
  obtain ⟨n, hs⟩ := h.slots_eq
  unfold toList
  rw [hs, List.take_left' h.length_eq.symm]

theorem isEmpty_eq (h : Holds xs b) : b.isEmpty = xs.isEmpty := by
  rw [Bool.eq_iff_iff, List.isEmpty_iff_length_eq_zero, ← h.length_eq,
    Buffer.isEmpty,
    decide_eq_true_iff]

/-- **All spare slots are wiped**, as many as there are. It is read off
the slots, which are the elements and then nothing but wiped ones. -/
theorem spare_eq (h : Holds xs b) :
    b.spare = wiped (b.capacity - b.length) := by
  obtain ⟨n, hs⟩ := h.slots_eq
  have hcapacity : b.capacity - b.length = n := by
    unfold capacity
    rw [hs, h.length_eq, List.length_append, length_wiped,
      Nat.add_sub_cancel_left]
  unfold spare
  rw [hcapacity, hs, List.drop_left' h.length_eq.symm]

theorem length_le (h : Holds xs b) : b.length ≤ b.capacity := by
  obtain ⟨n, hs⟩ := h.slots_eq
  unfold capacity
  rw [hs, h.length_eq, List.length_append]
  exact Nat.le_add_right _ _

/-- **Every slot behind the elements is wiped.** It is `spare_eq`, said
of a single slot. -/
theorem slot_eq (h : Holds xs b) {i : Nat} (hlength : b.length ≤ i)
    (hcapacity : i < b.capacity) :
    b.slots[i]? = some Wipeable.zero := by
  obtain ⟨n, hs⟩ := h.slots_eq
  unfold capacity at hcapacity
  rw [h.length_eq] at hlength
  rw [hs, List.length_append, length_wiped] at hcapacity
  rw [hs, List.getElem?_append_right hlength, wiped, List.getElem?_replicate,
    if_pos (by omega)]

/-! ## Growing -/

theorem withCapacity (n : Nat) :
    Holds ([] : List α) (Buffer.withCapacity n) where
  length_eq := rfl
  slots_eq := ⟨n, rfl⟩

/-- **Room is made without a change to the elements**, in the row there
is or in a new one. After it there is room for what was asked. -/
theorem reserve (h : Holds xs b) (needed : Nat) :
    Holds xs (b.reserve needed) ∧ needed ≤ (b.reserve needed).capacity := by
  unfold Buffer.reserve
  by_cases hroom : needed ≤ b.capacity
  · rw [if_pos hroom]
    exact ⟨h, hroom⟩
  · rw [if_neg hroom, h.toList_eq]
    refine ⟨⟨h.length_eq, _, rfl⟩, ?_⟩
    -- The power of two is large enough even if there was no element to move.
    have hpower := le_ceilPowerOfTwo needed
    show needed ≤ (xs ++ wiped (ceilPowerOfTwo needed - b.length)).length
    rw [List.length_append, length_wiped, h.length_eq]
    omega

/-- **Elements are appended**, behind those that there are, after room
has been made for them. -/
theorem append (h : Holds xs b) (elements : List α) :
    Holds (xs ++ elements) (b.append elements) := by
  obtain ⟨hheld, hroom⟩ := h.reserve (b.length + elements.length)
  obtain ⟨n, hs⟩ := hheld.slots_eq
  unfold Buffer.append
  refine ⟨?_, n - elements.length, ?_⟩
  · show (b.reserve _).length + elements.length = (xs ++ elements).length
    rw [hheld.length_eq, List.length_append]
  · show (b.reserve _).toList ++ elements
      ++ (b.reserve _).slots.drop ((b.reserve _).length + elements.length) = _
    rw [hheld.toList_eq, hheld.length_eq, hs, List.drop_append,
      List.drop_of_length_le (by omega),
      List.nil_append, Nat.add_sub_cancel_left, drop_wiped]

/-- A row of exactly the elements. The buffer is begun with as many
slots and filled. -/
theorem ofList (elements : List α) : Holds elements (Buffer.ofList elements) :=
  (withCapacity elements.length).append elements

/-! ## Shrinking -/

/-- **What is given up is wiped**: it joins the slots that were wiped
already. A length that is not shorter changes nothing. -/
theorem truncate (h : Holds xs b) (n : Nat) :
    Holds (xs.take n) (b.truncate n) := by
  unfold Buffer.truncate
  by_cases hn : b.length ≤ n
  · rw [if_pos hn, List.take_of_length_le (h.length_eq ▸ hn)]
    exact h
  · rw [if_neg hn]
    have hlt : n < xs.length := h.length_eq ▸ Nat.lt_of_not_le hn
    obtain ⟨m, hs⟩ := h.slots_eq
    refine ⟨?_, b.length - n + (b.capacity - b.length), ?_⟩
    · show n = (xs.take n).length
      rw [List.length_take, Nat.min_eq_left (Nat.le_of_lt hlt)]
    · show b.slots.take n ++ wiped (b.length - n) ++ b.spare = _
      rw [h.spare_eq, List.append_assoc, wiped_append_wiped, hs,
        List.take_append_of_le_length (Nat.le_of_lt hlt)]

/-- A length is reached by appending or by shortening, and each is known
already. -/
theorem resizeWith (h : Holds xs b) (n : Nat) (value : α) :
    Holds (xs.take n ++ List.replicate (n - xs.length) value)
      (b.resizeWith n value) := by
  unfold Buffer.resizeWith
  rw [h.length_eq]
  by_cases hn : n ≤ xs.length
  · rw [if_pos hn, Nat.sub_eq_zero_of_le hn, List.replicate_zero,
      List.append_nil]
    exact h.truncate n
  · rw [if_neg hn, List.take_of_length_le (Nat.le_of_not_le hn)]
    exact h.append _

/-- **Everything is given up**, and so everything is wiped. The slots
stay, and with them the room. -/
theorem clear (b : Buffer α) : Holds [] b.clear where
  length_eq := rfl
  slots_eq := ⟨b.capacity, rfl⟩

/-! ## Writing over elements -/

/-- Elements replaced by as many others leave the other slots alone. It
is the common part of what is written in place. -/
theorem withElements (h : Holds xs b) {elements : List α}
    (hl : elements.length = xs.length) :
    Holds elements (b.withElements elements) where
  length_eq := h.length_eq.trans hl.symm
  slots_eq := ⟨_, congrArg (elements ++ ·) h.spare_eq⟩

/-- An element is written in its slot; past the end nothing is written,
nor is anything in the list. -/
theorem set (h : Holds xs b) (i : Nat) (value : α) :
    Holds (xs.set i value) ((b.set? i value).getD b) := by
  obtain ⟨n, hs⟩ := h.slots_eq
  unfold Buffer.set?
  by_cases hi : i < b.length
  · rw [if_pos hi]
    refine ⟨h.length_eq.trans List.length_set.symm, n, ?_⟩
    show b.slots.set i value = _
    rw [hs, List.set_append_left i value (h.length_eq ▸ hi)]
  · rw [if_neg hi, List.set_eq_of_length_le (h.length_eq ▸ Nat.le_of_not_lt hi)]
    exact h

/-! ## Histories -/

/-- **A buffer begins with the elements of its origin.** Each of the
four ways to begin is one of the operations above. -/
theorem origin (origin : Origin α) : Holds origin.elements origin.buffer := by
  cases origin with
  | empty => exact withCapacity 0
  | withCapacity n => exact withCapacity n
  | ofList elements => exact ofList elements
  | drain source => exact ofList source

/-- **A change does to a buffer what it does to a list**, and leaves no
slot unwiped. There is a case for each operation. -/
theorem change (h : Holds xs b) (c : Change α) :
    Holds (c.onList xs) (b.change c) := by
  cases c with
  | push value => exact h.append [value]
  | append elements => exact h.append elements
  | truncate n => exact h.truncate n
  | resize n => exact h.resizeWith n Wipeable.zero
  | resizeWith n value => exact h.resizeWith n value
  | clear => exact clear b
  | set i value => exact h.set i value
  | fill value =>
    show Holds _ (b.withElements (List.replicate b.length value))
    rw [h.length_eq]
    exact h.withElements List.length_replicate
  | reverse =>
    show Holds _ (b.withElements b.toList.reverse)
    rw [h.toList_eq]
    exact h.withElements List.length_reverse

/-- **A history of changes** is one change after another, on the list as
on the buffer. -/
theorem changes (h : Holds xs b) (cs : List (Change α)) :
    Holds (cs.foldl Change.onList xs) (cs.foldl Buffer.change b) := by
  induction cs generalizing xs b with
  | nil => exact h
  | cons c cs ih => exact ih (h.change c)

end Holds

/-- **A buffer is a list, and leaves nothing behind.** However a buffer
was begun and whatever has been done to it since, its elements are those
of the list that was treated alike, there is room for them, and every
other slot is wiped; and a source from which it was drained is wiped
too. -/
theorem elements_eq_and_spare_wiped (origin : Origin α) (cs : List (Change α)) :
    let b := cs.foldl Buffer.change origin.buffer
    let xs := cs.foldl Change.onList origin.elements
    b.toList = xs
      ∧ b.length = xs.length
      ∧ b.length ≤ b.capacity
      ∧ (∀ i, b.length ≤ i → i < b.capacity → b.slots[i]? = some Wipeable.zero)
      ∧ ∀ source, origin = .drain source →
        origin.source? = some (List.replicate source.length Wipeable.zero) := by
  have h := (Holds.origin origin).changes cs
  refine ⟨h.toList_eq, h.length_eq, h.length_le, fun i => h.slot_eq, ?_⟩
  rintro source rfl
  rfl

/-- Eight slots are kept when all but one of their elements are given
up, and a later reversal does not reach into them. -/
example :
    ([.append [1, 2, 3, 4, 5], .truncate 2, .push 6, .reverse, .resize 1].foldl
        Buffer.change
      (Origin.ofList ([] : List UInt8)).buffer)
        = ⟨[6, 0, 0, 0, 0, 0, 0, 0], 1⟩ := by
  decide

end Buffer

end Strongbox
