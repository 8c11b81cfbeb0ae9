import Strongbox.Ghash
import Strongbox.Keystream
import Strongbox.Proofs.Checked

/-!
# Stretches within a block

A `Keystream` and a `Ghash` are defined byte by byte. A machine that
works on ranges does not go byte by byte: it takes as much at once as
there is room for in the block under way, and turns to the next block
when there is none. This module says that this comes to the same.

Of a keystream, the block is made when the first byte of it is wanted
(`Keystream.refill`), and a stretch is combined with the bytes behind
those handed out (`Keystream.apply_stretch`). Of a hash, a stretch is
written behind the bytes that are pending (`Ghash.fill`), and a block
that is full is added in (`Ghash.absorb_stretch`).

## Two machines

The byte-wise definitions are those that everything is proved of: a
keystream hands out the byte at its position, and a hash adds a byte to
what is pending. A machine that works on ranges computes the same things
in other steps. It makes a block before it hands out the first byte of
it, where the byte-wise keystream makes it together with that byte; it
combines many bytes in one pass; and it looks whether a block is full
only at the end of a pass.

None of the differences can be seen, as long as a pass does not go
beyond the block under way. That bound is a hypothesis of both laws
about stretches, and `exists_stretch` is where it comes from: the pass
that a machine computes is that long, and no longer.
-/

namespace Strongbox

/-- The exclusive or of two blocks, byte by byte. Ranges are combined in
this way, and blocks by their sum. -/
theorem Block.toBytes_xor (a b : Block) :
    (a.xor b).toBytes = List.zipWith (· ^^^ ·) a.toBytes b.toBytes := by
  simp [Block.xor, Block.toBytes]

/-- **The next stretch of a buffer**, as long as there is more of the
buffer: it goes up to the end of the block or of the buffer, and is not
empty. The sum and the range that the machine computes are shown to be
without fault on the way. -/
theorem exists_stretch {buffer : Bytes} {spent offset : Nat}
    (hspent : spent < 16) (hoffset : offset < buffer.length)
    (hbuffer : buffer.length < 2 ^ 61) :
    ∃ stop piece,
      Checked.add offset (min (16 - spent) (buffer.length - offset)) = .ok stop
        ∧ Checked.slice buffer offset stop = .ok piece
        ∧ buffer.drop offset = piece ++ buffer.drop stop
        ∧ offset < stop ∧ stop ≤ buffer.length ∧ spent + piece.length ≤ 16
          ∧ piece ≠ [] := by
  generalize htaken : min (16 - spent) (buffer.length - offset) = taken
  have hlen : ((buffer.drop offset).take taken).length = taken :=
    List.length_take_of_le (by rw [List.length_drop]; omega)
  refine ⟨offset + taken, (buffer.drop offset).take taken,
    Checked.add_eq (by unfold Checked.wordLimit; omega), ?_, ?_, by omega,
    by omega,
    by omega, ?_⟩
  · rw [Checked.slice_eq (by omega) (by omega), List.drop_take,
      Nat.add_sub_cancel_left]
  · rw [← List.drop_drop, List.take_append_drop]
  · intro hnil
    rw [hnil, List.length_nil] at hlen
    omega

namespace Keystream

variable (cipher next : Block → Block) {k : Keystream}

/-- **The stream with a block to hand out from**: if all of the last one
has been handed out, the next one. A stream that has bytes left is not
changed. -/
def refill (k : Keystream) : Keystream :=
  if k.spent = 16 then ⟨next k.counter, cipher k.counter, 0⟩ else k

/-- There is a byte to hand out afterwards, in either case: the block
had one left, or a new one has been made. -/
theorem spent_refill_lt (h : k.spent ≤ 16) :
    (k.refill cipher next).spent < 16 := by
  unfold refill
  split
  · exact Nat.zero_lt_succ 15
  · show k.spent < 16
    omega

/-- No more is handed out of a block than there is. The cursor may stand
at the end of a block, and then the next byte makes a new one. -/
theorem spent_apply_le (h : k.spent ≤ 16) (piece : Bytes) :
    (k.apply cipher next piece).2.spent ≤ 16 := by
  induction piece generalizing k with
  | nil => exact h
  | cons byte rest ih =>
    rw [apply_cons]
    refine ih ?_
    unfold pull
    split
    · show k.spent + 1 ≤ 16
      omega
    · exact Nat.succ_le_succ (Nat.zero_le 15)

/-- **A block is there before its first byte or with it**: it makes no
difference to what is handed out. The first byte of the piece would have
made it. -/
theorem apply_refill {piece : Bytes} (hne : piece ≠ []) :
    (k.refill cipher next).apply cipher next piece
      = k.apply cipher next piece := by
  have hpull : (k.refill cipher next).pull cipher next
    = k.pull cipher next := by
    unfold refill
    split
    · next hspent =>
      unfold pull
      rw [dif_pos (show 0 < 16 by decide), dif_neg (by omega)]
    · rfl
  cases piece with
  | nil => exact absurd rfl hne
  | cons byte rest => rw [apply_cons, apply_cons, hpull]

/-- **A stretch of the message** is combined with a stretch of the
block. By induction over the piece, none of whose bytes asks for a
block. -/
theorem apply_stretch {piece : Bytes} (h : k.spent + piece.length ≤ 16) :
    k.apply cipher next piece
      = (List.zipWith (· ^^^ ·) piece
          ((k.block.toBytes.drop k.spent).take piece.length),
          { k with spent := k.spent + piece.length }) := by
  induction piece generalizing k with
  | nil => rfl
  | cons byte rest ih =>
    rw [List.length_cons] at h
    have hlt : k.spent < 16 := by omega
    have hpull : k.pull cipher next
      = (k.block[k.spent], { k with spent := k.spent + 1 }) :=
      dif_pos hlt
    have hdrop : k.block.toBytes.drop k.spent
        = k.block[k.spent] :: k.block.toBytes.drop (k.spent + 1) :=
      List.drop_eq_getElem_cons (by rw [Block.length_toBytes]; exact hlt)
    have hrest :=
      ih (k := { k with spent := k.spent + 1 })
        (by show k.spent + 1 + _ ≤ 16; omega)
    rw [apply_cons, hpull, hrest, hdrop, List.length_cons, List.take_succ_cons,
      List.zipWith_cons_cons, Nat.add_assoc, Nat.add_comm 1]

end Keystream

namespace Ghash

variable {g : Ghash}

/-- **The hash with a stretch written behind what is pending.** It may
fill the block, and is not added in by this. A block that is full is
flushed by whoever has written it. -/
def fill (g : Ghash) (piece : Bytes) : Ghash :=
  { g with
    pending := g.pending.write g.filled piece
    filled := g.filled + piece.length }

/-- **A stretch of bytes** is written into the pending block, which is
added in when it is full. The stretch may end in the middle of the block
or with it, and those are the two cases. -/
theorem absorb_stretch {piece : Bytes} (hlt : g.filled < 16)
    (h : g.filled + piece.length ≤ 16) :
    g.absorb piece
      = if g.filled + piece.length = 16 then (g.fill piece).flush
        else g.fill piece := by
  induction piece generalizing g with
  | nil =>
    rw [if_neg (by rw [List.length_nil]; omega), fill, Block.write_nil]
    rfl
  | cons byte rest ih =>
    rw [List.length_cons] at h
    show (g.push byte).absorb rest = _
    have hwrite : g.pending.write g.filled (byte :: rest)
        = Block.write (g.pending.set g.filled byte) (g.filled + 1) rest := by
      rw [← Block.write_singleton hlt, ← List.singleton_append,
        Block.write_append (by rw [List.length_singleton]; omega)]
      rfl
    by_cases hroom : g.filled < 15
    · have hpush : g.push byte
          = { g with
              pending := g.pending.set g.filled byte
              filled := g.filled + 1 } :=
        dif_pos hroom
      have hsum : g.filled + 1 + rest.length
        = g.filled + (rest.length + 1) := by omega
      have hfill : (g.push byte).fill rest = g.fill (byte :: rest) := by
        rw [hpush, fill, fill, List.length_cons, hwrite, hsum]
      rw [ih (by rw [hpush]; show g.filled + 1 < 16; omega)
        (by rw [hpush]; show g.filled + 1 + _ ≤ 16; omega), hfill, hpush,
          List.length_cons]
      simp only [hsum]
    · -- the byte fills the block, and nothing comes after it
      obtain rfl : rest = [] := List.eq_nil_of_length_eq_zero (by omega)
      have hfilled : g.filled = 15 := by omega
      obtain ⟨key, sum, pending, filled⟩ := g
      obtain rfl : filled = 15 := hfilled
      refine Eq.trans ?_ (if_pos rfl).symm
      rw [fill, hwrite, Block.write_nil]
      rfl

/-- What a flush takes in of the pending block are the bytes that have
arrived. So a hash that is given whole pieces, and fills them up, does
the same. -/
theorem flush_eq_foldl (hne : g.filled ≠ 0) (hle : g.filled ≤ 16)
    (hpending : g.pending = Block.ofBytes (g.pending.toBytes.take g.filled)) :
    g.flush = { g with
      sum := (Block.split (g.pending.toBytes.take g.filled)).foldl (step g.key)
        g.sum
      pending := Block.zero
      filled := 0 } := by
  have hlen : (g.pending.toBytes.take g.filled).length = g.filled :=
    List.length_take_of_le (by rw [Block.length_toBytes]; exact hle)
  have hsplit : Block.split (g.pending.toBytes.take g.filled)
    = [g.pending] := by
    rw [Block.split_of_length_le (fun hnil => hne (by rw [← hlen, hnil]; rfl))
      (by omega),
      ← hpending]
  rw [hsplit, flush, if_neg hne]
  rfl

end Ghash

end Strongbox
