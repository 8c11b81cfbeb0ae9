import Mathlib.Logic.Function.Basic
import Strongbox.Proofs.Keystream
import Strongbox.Proofs.WholeBlocks

/-!
# Differences in one place

Two lists are `OneApart` if they have the same length and differ in one
place. The relation survives what happens to a message on its way to a
tag: other data put in front of it and behind it, a keystream laid over
it, and its cutting into blocks, where a difference of one byte becomes
a difference of one block (`OneApart.split`) whatever the alignment.

At the end of the way stands a chain, in which every block is folded
into a value. If the fold loses nothing – neither of the value nor of
the block – then a difference of one block goes in once and cannot be
taken back by what is equal after it (`OneApart.foldl_ne`).

## Losing nothing

A fold may lose a difference in two ways. A step may send two elements
to one value, and then the difference never gets in; or it may send two
values to one, and then it is forgotten again. `foldl_ne` excludes both,
by asking that a step is one to one in each of its two arguments. A
chain of encryptions has this as soon as the cipher is one to one on
blocks, and a sum of products as soon as the key is not zero.

Only one place is spoken of. With differences in two places, the second
one might take back what the first one has done.
-/

namespace Strongbox

/-- **Two lists that differ in one place**, and nowhere else. The two
places are the same, and what is in front of them and behind them is
equal. -/
def OneApart {α : Type} (a b : List α) : Prop :=
  ∃ (front : List α) (x y : α) (back : List α),
    x ≠ y ∧ a = front ++ x :: back ∧ b = front ++ y :: back

namespace OneApart

variable {α β : Type} {a b : List α}

/-- Lists that differ in one place have the same length. This is why the
lengths that are authenticated do not help to tell them apart, nor are
needed to. -/
theorem length_eq (h : OneApart a b) : a.length = b.length := by
  obtain ⟨front, x, y, back, -, rfl, rfl⟩ := h
  rw [List.length_append, List.length_append, List.length_cons,
    List.length_cons]

/-- An empty list does not differ anywhere. The place has an element on
both sides. -/
theorem ne_nil (h : OneApart a b) : a ≠ [] := by
  obtain ⟨front, x, y, back, -, rfl, rfl⟩ := h
  exact List.append_ne_nil_of_right_ne_nil _ (List.cons_ne_nil _ _)

/-- Which of the two is the altered one makes no difference. -/
theorem symm (h : OneApart a b) : OneApart b a := by
  obtain ⟨front, x, y, back, hne, ha, hb⟩ := h
  exact ⟨front, y, x, back, hne.symm, hb, ha⟩

/-- What stands in front makes no difference. A header that both have in
common is of this kind. -/
theorem append_left (h : OneApart a b) (c : List α) :
    OneApart (c ++ a) (c ++ b) := by
  obtain ⟨front, x, y, back, hne, rfl, rfl⟩ := h
  exact ⟨c ++ front, x, y, back, hne, (List.append_assoc ..).symm,
    (List.append_assoc ..).symm⟩

/-- What stands behind makes no difference. What follows the altered
part of a message is of this kind. -/
theorem append_right (h : OneApart a b) (c : List α) :
    OneApart (a ++ c) (b ++ c) := by
  obtain ⟨front, x, y, back, hne, rfl, rfl⟩ := h
  exact ⟨front, x, y, back ++ c, hne, List.append_assoc ..,
    List.append_assoc ..⟩

/-- **A fold that loses nothing keeps a difference**: up to the place
where the lists differ the values are the same, at that place they part,
and from there on they cannot meet again. The values part by `helement`,
and stay apart by `hvalue`. -/
theorem foldl_ne {f : β → α → β} (hvalue : ∀ x, Function.Injective (f · x))
    (helement : ∀ s, Function.Injective (f s)) (h : OneApart a b) (s : β) :
    a.foldl f s ≠ b.foldl f s := by
  obtain ⟨front, x, y, back, hne, rfl, rfl⟩ := h
  have hback : Function.Injective fun s => back.foldl f s := by
    induction back with
    | nil => exact fun _ _ h => h
    | cons z back ih => exact ih.comp (hvalue z)
  rw [List.foldl_append, List.foldl_append, List.foldl_cons, List.foldl_cons]
  exact fun heq => hne (helement _ (hback heq))

/-! ## Bytes -/

/-- **A stream of bytes laid over a message** keeps a difference in its
place. The stream puts the same byte on both, which the exclusive or
keeps apart. -/
theorem under (stream : Nat → UInt8) (j : Nat) {a b : Bytes}
    (h : OneApart a b) :
    OneApart (Keystream.under stream j a) (Keystream.under stream j b) := by
  obtain ⟨front, x, y, back, hne, rfl, rfl⟩ := h
  have hcons (z : UInt8) : Keystream.under stream (j + front.length) (z :: back)
      = (z ^^^ stream (j + front.length))
        :: Keystream.under stream (j + front.length + 1) back :=
    Keystream.under_append stream (j + front.length) [z] back
  refine ⟨Keystream.under stream j front, _, _, _, fun heq => hne ?_,
    by rw [Keystream.under_append, hcons],
    by rw [Keystream.under_append, hcons]⟩
  exact (UInt8.xor_left_inj _).mp heq

/-- A byte in front of the sixteenth makes a block a different one. It
stands at the same index of both. -/
theorem ofBytes_ne {a b : Bytes} {front back : Bytes} {x y : UInt8}
    (hne : x ≠ y) (hfront : front.length < 16) (ha : a = front ++ x :: back)
    (hb : b = front ++ y :: back) :
    Block.ofBytes a ≠ Block.ofBytes b := by
  subst ha hb
  intro heq
  have hbyte (z : UInt8) : (Block.ofBytes (front ++ z :: back))[front.length]
    = z := by
    rw [Block.getElem_ofBytes _ _ hfront, List.getD_eq_getElem?_getD,
      List.getElem?_append_right (Nat.le_refl _), Nat.sub_self,
      List.getElem?_cons_zero, Option.getD_some]
  exact hne ((hbyte x).symm.trans
    ((congrArg (·[front.length]) heq).trans (hbyte y)))

/-- **One byte is in one block.** By recursion over the blocks: the byte
is in the first one, or in one of those behind it. -/
theorem split {a b : Bytes} (h : OneApart a b) :
    OneApart (Block.split a) (Block.split b) := by
  have hnil := h.ne_nil
  have hnil' := h.symm.ne_nil
  obtain ⟨front, x, y, back, hne, ha, hb⟩ := h
  rw [Block.split_of_ne_nil hnil, Block.split_of_ne_nil hnil']
  by_cases hfront : front.length < 16
  · -- The difference is in the first block, and no other one has it.
    have hfirst := ofBytes_ne hne hfront ha hb
    have hrest : a.drop 16 = b.drop 16 := by
      rw [ha, hb, List.drop_append, List.drop_append]
      obtain ⟨k, hk⟩ : ∃ k, 16 - front.length = k + 1 :=
        ⟨15 - front.length, by omega⟩
      rw [hk, List.drop_succ_cons, List.drop_succ_cons]
    rw [hrest]
    exact ⟨[], _, _, _, hfirst, rfl, rfl⟩
  · -- The first block is the same, and the difference is behind it.
    have hle : 16 ≤ front.length := Nat.le_of_not_lt hfront
    have hfirst : Block.ofBytes a = Block.ofBytes b := by
      rw [ha, hb, Block.ofBytes_append_of_le _ _ hle,
        Block.ofBytes_append_of_le _ _ hle]
    have hrest : OneApart (a.drop 16) (b.drop 16) := by
      rw [ha, hb, List.drop_append_of_le_length hle,
        List.drop_append_of_le_length hle]
      exact ⟨front.drop 16, x, y, back, hne, rfl, rfl⟩
    rw [hfirst]
    exact (split hrest).append_left [_]
termination_by a.length
decreasing_by
  rw [ha, List.length_drop, List.length_append, List.length_cons]
  omega

end OneApart

end Strongbox
