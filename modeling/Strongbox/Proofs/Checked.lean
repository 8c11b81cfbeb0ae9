import Strongbox.Checked
import Strongbox.Proofs.Buffer
import Strongbox.Proofs.Bytes
import Strongbox.Proofs.WholeBlocks

/-!
# Computations that go right

What an operation of `Checked` comes to when it does not go wrong, and
when that is. Of a sum or a difference there is nothing more to say than
its condition; of a range it is said in the form in which a program has
it, by what stands before the range, in it and after it.

## Rows of blocks

The rows of this library are blocks, one behind another (`Block.row`),
and are worked on in two ways only: by whole blocks (`slice_row`,
`put_row`, `wipe_row`) and by a range inside a single one
(`slice_within`, `put_within`). In all five the row is cut at the blocks
in question, so that where a range begins and ends is read off the
blocks before it. `Block.write` is what a copy into a block makes of it.

## Faults

A proof that a computation ends well goes through it step by step: each
operation is replaced by its value, by an equation of this module whose
hypothesis is the condition that it checks, and `bind_eq` goes on to the
next one. The conditions are about lengths and sizes and are found where
the computation is used.

The other direction is needed as well, where nothing is known about
sizes: what a computation has done *if* it has ended well. `Ensures`
says so, and its lemmas go through a computation without asking for any
condition.
-/

namespace Strongbox

/-! ## Blocks that are written into -/

namespace Block

/-- **A block with bytes written into it**, from an index on. The length
stays sixteen, as long as it fits; what does not fit is cut. -/
def write (b : Block) (i : Nat) (src : Bytes) : Block :=
  ofBytes (b.toBytes.take i ++ src ++ b.toBytes.drop (i + src.length))

variable {b : Block} {i j : Nat} {src : Bytes}

/-- What is written fits into the block. The three parts are what was
before, what is written, and what is behind. -/
theorem toBytes_write (h : i + src.length ≤ 16) :
    (b.write i src).toBytes
      = b.toBytes.take i ++ src ++ b.toBytes.drop (i + src.length) := by
  refine toBytes_ofBytes_of_length ?_
  simp only [List.length_append, List.length_take, List.length_drop,
    length_toBytes]
  omega

/-- What has been written into a block is read back at its start. So the
bytes that are pending can be read off their block. -/
theorem take_toBytes_ofBytes {bytes : Bytes} (h : bytes.length ≤ 16) :
    (ofBytes bytes).toBytes.take bytes.length = bytes := by
  rw [toBytes_ofBytes, List.take_of_length_le h, List.take_take,
    Nat.min_eq_left h, List.take_left]

/-- Behind the bytes that it is made of, a block is zero. They are as
many as there are bytes missing. -/
theorem drop_toBytes_ofBytes {bytes : Bytes} (h : bytes.length ≤ 16) :
    (ofBytes bytes).toBytes.drop bytes.length
      = Bytes.zeros (16 - bytes.length) := by
  rw [toBytes_ofBytes, List.take_of_length_le h, List.drop_take, List.drop_left,
    Bytes.zeros,
    List.take_replicate, Nat.min_eq_left (Nat.sub_le ..)]
  rfl

/-- The bytes of a block, each at its index. A block and its bytes have
the same indices. -/
theorem getD_toBytes (b : Block) (h : j < 16) : b.toBytes.getD j 0 = b[j] := by
  rw [← getElem_ofBytes b.toBytes j h, getElem_congr_coll (ofBytes_toBytes b)]

/-- **Inside the range stand the bytes written**, outside it what stood
there. Equations between blocks that are written to are proved by it,
index by index. -/
theorem getElem_write (h : i + src.length ≤ 16) (hj : j < 16) :
    (b.write i src)[j]
      = if i ≤ j ∧ j < i + src.length then src.getD (j - i) 0 else b[j] := by
  have htake : (b.toBytes.take i).length = i :=
    List.length_take_of_le (by simp; omega)
  rw [write, getElem_ofBytes, ← getD_toBytes b hj]
  simp only [List.getD_eq_getElem?_getD]
  by_cases hbefore : j < i
  · rw [if_neg (by omega), List.append_assoc,
      List.getElem?_append_left (by omega),
      List.getElem?_take_of_lt hbefore]
  · rw [List.append_assoc, List.getElem?_append_right (by omega), htake]
    by_cases hin : j < i + src.length
    · rw [if_pos (by omega), List.getElem?_append_left (by omega)]
    · rw [if_neg (by omega), List.getElem?_append_right (by omega),
        List.getElem?_drop,
        show i + src.length + (j - i - src.length) = j by omega]

/-- Nothing written changes nothing. A pass of no bytes leaves the block
as it is. -/
theorem write_nil : b.write i [] = b := by
  rw [write, List.append_nil, List.length_nil, Nat.add_zero,
    List.take_append_drop,
    ofBytes_toBytes]

/-- Bytes written at the start of a blank block. The zeros behind them
are those that were there. -/
theorem write_zero (h : src.length ≤ 16) : zero.write 0 src = ofBytes src := by
  ext j hj
  rw [getElem_write (by omega) hj, getElem_ofBytes, Nat.sub_zero, Nat.zero_add]
  by_cases hin : j < src.length
  · rw [if_pos ⟨Nat.zero_le j, hin⟩]
  · rw [if_neg (fun h => hin h.2), getElem_zero, List.getD_eq_getElem?_getD,
      List.getElem?_eq_none (Nat.le_of_not_lt hin)]
    rfl

/-- **One byte written.** It is the form in which a byte-wise machine
writes. -/
theorem write_singleton (h : i < 16) (byte : UInt8) :
    b.write i [byte] = b.set i byte := by
  ext j hj
  rw [getElem_write h hj, Vector.getElem_set]
  by_cases hij : i = j
  · subst hij
    rw [if_pos ⟨Nat.le_refl i, Nat.lt_succ_self i⟩, if_pos rfl, Nat.sub_self]
    rfl
  · rw [if_neg (by rw [List.length_singleton]; omega), if_neg hij]

/-- **Writing in two parts.** So a block may be filled in as many passes
as one likes. -/
theorem write_append {t : Bytes} (h : i + (src.length + t.length) ≤ 16) :
    b.write i (src ++ t) = (b.write i src).write (i + src.length) t := by
  ext j hj
  have hlen : (src ++ t).length = src.length + t.length := List.length_append
  rw [getElem_write (hlen ▸ h) hj, getElem_write (by omega) hj,
    getElem_write (by omega) hj, hlen]
  simp only [List.getD_eq_getElem?_getD]
  by_cases hsecond : i + src.length ≤ j ∧ j < i + src.length + t.length
  · rw [if_pos (by omega), if_pos hsecond,
      List.getElem?_append_right (by omega),
      Nat.sub_add_eq]
  · rw [if_neg hsecond]
    by_cases hfirst : i ≤ j ∧ j < i + src.length
    · rw [if_pos (by omega), if_pos hfirst,
        List.getElem?_append_left (by omega)]
    · rw [if_neg (by omega), if_neg hfirst]

/-- **Blocks one behind another.** A range of a row that begins and ends
with blocks is a row. -/
def row (blocks : List Block) : Bytes := blocks.flatMap toBytes

@[simp] theorem length_row (blocks : List Block) :
    (row blocks).length = 16 * blocks.length := by
  induction blocks with
  | nil => rfl
  | cons b blocks ih =>
    rw [row, List.flatMap_cons, List.length_append, length_toBytes, ← row, ih,
      List.length_cons]
    omega

theorem row_append (as bs : List Block) : row (as ++ bs) = row as ++ row bs :=
  List.flatMap_append

@[simp] theorem row_singleton (b : Block) : row [b] = b.toBytes :=
  List.append_nil _

theorem row_pair (a b : Block) : row [a, b] = a.toBytes ++ b.toBytes :=
  congrArg (a.toBytes ++ ·) (row_singleton b)

/-- Wiped bytes are wiped blocks. A row that is wiped is one of zero
blocks. -/
theorem row_replicate_zero (n : Nat) :
    row (List.replicate n zero) = Bytes.zeros (16 * n) := by
  induction n with
  | zero => rfl
  | succ n ih =>
    rw [List.replicate_succ, row, List.flatMap_cons, ← row, ih, Nat.mul_succ,
      Nat.add_comm]
    exact Bytes.zeros_append_zeros 16 (16 * n)

end Block

namespace Checked

section

variable {α β : Type}

/-- What comes after a computation that has ended well. As a rewriting
rule it carries a proof on to the next step. -/
@[simp] theorem ok_bind (a : α) (f : α → Checked β) :
    (Except.ok a >>= f) = f a := rfl

/-- **What comes after a computation that is known to end well.** It is
used where the first part is known by a lemma. -/
theorem bind_eq {x : Checked α} {a : α} (h : x = .ok a) (f : α → Checked β) :
    (x >>= f) = f a := congrArg (· >>= f) h

/-- A computation in two parts that has ended well, after both of them
have. The first part has had a value, from which the second one went on. -/
theorem exists_of_bind_eq_ok {x : Checked α} {f : α → Checked β} {b : β}
    (h : (x >>= f) = .ok b) : ∃ a, x = .ok a ∧ f a = .ok b := by
  cases x with
  | error fault => cases h
  | ok a => exact ⟨a, rfl, h⟩

@[simp] theorem pure_eq_ok (a : α) : (pure a : Checked α) = .ok a := rfl

end

/-! ## What a computation ends with -/

section

variable {α β : Type}

/-- **Whatever a computation ends well with has a property.** A
computation that comes to a fault has every such property. -/
def Ensures (P : α → Prop) (x : Checked α) : Prop := ∀ a, x = .ok a → P a

variable {P : β → Prop}

theorem Ensures.ok {b : β} (h : P b) : Ensures P (.ok b) := by
  rintro _ ⟨⟩
  exact h

/-- A computation that is known to end well. Its value is the one that
is known. -/
theorem Ensures.of_eq {x : Checked β} {b : β} (hx : x = .ok b) (h : P b) :
    Ensures P x :=
  hx ▸ .ok h

/-- What comes after a computation counts, whatever that has ended with.
The property has to hold from every value of the first part. -/
theorem Ensures.bind {x : Checked α} {f : α → Checked β}
    (h : ∀ a, Ensures P (f a)) :
    Ensures P (x >>= f) := by
  cases x with
  | error fault => exact nofun
  | ok a => exact h a

theorem Ensures.map {Q : α → Prop} {x : Checked α} {f : α → β} (h : Ensures Q x)
    (hf : ∀ a, Q a → P (f a)) : Ensures P (x.map f) := by
  cases x with
  | error fault => exact nofun
  | ok a => exact .ok (hf a (h a rfl))

end

/-! ## Words -/

section

variable {a b : Nat}

theorem add_eq (h : a + b < wordLimit) : add a b = .ok (a + b) := if_pos h

theorem sub_eq (h : b ≤ a) : sub a b = .ok (a - b) := if_pos h

theorem mul_eq (h : a * b < wordLimit) : mul a b = .ok (a * b) := if_pos h

/-- **A sum within a limit that is a word.** The limit is a word itself,
so that it is the only condition left. -/
theorem sumWithin?_eq {limit : Nat} (h : limit < wordLimit) :
    sumWithin? limit a b = if a + b > limit then none else some (a + b) := by
  unfold sumWithin?
  by_cases hle : a + b ≤ limit
  · rw [if_pos ⟨by omega, hle⟩, if_neg (by omega)]
  · rw [if_neg (fun h => hle h.2), if_pos (by omega)]

end

/-! ## Ranges -/

section

variable {start stop : Nat} {before range after src : Bytes}

theorem slice_eq {row : Bytes} (h : start ≤ stop) (h' : stop ≤ row.length) :
    slice row start stop = .ok ((row.take stop).drop start) := if_pos ⟨h, h'⟩

/-- The beginning of a row. It has to end inside the row, and then it is
what `take` gives. -/
theorem slice_zero {row : Bytes} (h : stop ≤ row.length) :
    slice row 0 stop = .ok (row.take stop) := slice_eq (Nat.zero_le _) h

/-- The end of a row. It has to begin inside the row, and then it is
what `drop` gives. -/
theorem slice_length {row : Bytes} (h : start ≤ row.length) :
    slice row start row.length = .ok (row.drop start) := by
  rw [slice_eq h (Nat.le_refl _), List.take_length]

/-- **A range is what stands between what is before and after it.** The
row is given as three parts, and the range is the middle one. -/
theorem slice_append (hstart : before.length = start)
    (hstop : start + range.length = stop) :
    slice (before ++ range ++ after) start stop = .ok range := by
  have hlen : (before ++ range).length = stop := by
    rw [List.length_append, hstart, hstop]
  rw [slice_eq (by omega) (by rw [List.length_append, hlen]; omega),
    List.take_left' hlen,
    List.drop_left' hstart]

/-- **A copy of the right size takes the place of the range.** What is
before it and behind it stays. -/
theorem put_append (hstart : before.length = start)
    (hstop : start + range.length = stop) (hsrc : src.length = range.length) :
    put (before ++ range ++ after) start stop src
      = .ok (before ++ src ++ after) := by
  have hlen : (before ++ range).length = stop := by
    rw [List.length_append, hstart, hstop]
  unfold put
  rw [slice_append hstart hstop, ok_bind, if_pos hsrc.symm,
    List.drop_left' hlen,
    List.append_assoc before range after, List.take_left' hstart]
  rfl

/-- The beginning of a row replaced. The copy must not be longer than
the row. -/
theorem put_zero {row : Bytes} (h : src.length ≤ row.length) :
    put row 0 src.length src = .ok (src ++ row.drop src.length) := by
  have hrange : (row.take src.length).length = src.length :=
    List.length_take_of_le h
  have hput :
    put ([] ++ row.take src.length ++ row.drop src.length) 0 src.length src
      = .ok ([] ++ src ++ row.drop src.length) :=
        put_append rfl (by omega) hrange.symm
  rwa [List.nil_append, List.take_append_drop, List.nil_append] at hput

/-- **A copy over the start of a row** that has been made was of the
right size. It is the converse of `put_zero`, for a copy whose size is
not known before. -/
theorem eq_of_put_zero {row out : Bytes} (h : put row 0 stop src = .ok out) :
    src.length = stop ∧ out = src ++ row.drop stop := by
  obtain ⟨dest, hdest, hrest⟩ := exists_of_bind_eq_ok h
  unfold slice at hdest
  split at hdest <;> cases hdest
  split at hrest <;> cases hrest
  next hrange hlength =>
    refine ⟨?_, rfl⟩
    rw [← hlength, List.drop_zero]
    exact List.length_take_of_le hrange.2

/-- The end of a row replaced. The copy must be as long as what it
replaces. -/
theorem put_length {row : Bytes} (hsrc : start + src.length = row.length) :
    put row start row.length src = .ok (row.take start ++ src) := by
  have hbefore : (row.take start).length = start :=
    List.length_take_of_le (by omega)
  have hrange : (row.drop start).length = src.length := by
    rw [List.length_drop]; omega
  have hput : put (row.take start ++ row.drop start ++ []) start row.length src
      = .ok (row.take start ++ src ++ []) :=
        put_append hbefore (by omega) hrange.symm
  rwa [List.append_nil, List.take_append_drop, List.append_nil] at hput

/-- A whole row replaced. Nothing of the row is left, if the two have
one length. -/
theorem put_whole {row : Bytes} (hsrc : src.length = row.length) :
    put row 0 row.length src = .ok src := put_length (by omega)

/-- A whole row wiped. It is a copy of as many zeros as the row is long. -/
theorem wipe_whole (row : Bytes) :
    wipe row 0 row.length = .ok (Bytes.zeros row.length) := by
  unfold wipe
  rw [slice_length (Nat.zero_le _), ok_bind, List.drop_zero]
  exact put_whole (Bytes.length_zeros _)

theorem splitAt_append {n : Nat} (h : before.length = n) :
    splitAt (before ++ after) n = .ok (before, after) := by
  unfold splitAt
  rw [if_pos (by rw [List.length_append]; omega), List.take_left' h,
    List.drop_left' h]

end

/-! ## Rows of blocks -/

section

variable (as bs cs : List Block) (b : Block)

/-- **Whole blocks of a row.** The bounds are multiples of sixteen, told
by how many blocks there are. -/
theorem slice_row : slice (Block.row (as ++ bs ++ cs)) (16 * as.length)
    (16 * (as.length + bs.length)) = .ok (Block.row bs) := by
  rw [Block.row_append, Block.row_append]
  exact slice_append (Block.length_row as)
    (by rw [Block.length_row, Nat.mul_add])

/-- **Whole blocks of a row replaced.** As many blocks come in as go
out. -/
theorem put_row {bs' : List Block} (h : bs'.length = bs.length) :
    put (Block.row (as ++ bs ++ cs)) (16 * as.length)
      (16 * (as.length + bs.length))
      (Block.row bs') = .ok (Block.row (as ++ bs' ++ cs)) := by
  simp only [Block.row_append]
  refine put_append (Block.length_row as) ?_ ?_
  · rw [Block.length_row, Nat.mul_add]
  · rw [Block.length_row, Block.length_row, h]

/-- **Whole blocks of a row wiped.** They are zero blocks afterwards,
and the blocks around them are as they were. -/
theorem wipe_row : wipe (Block.row (as ++ bs ++ cs)) (16 * as.length)
    (16 * (as.length + bs.length))
      = .ok (Block.row (as ++ List.replicate bs.length Block.zero ++ cs)) := by
  unfold wipe
  rw [slice_row, ok_bind, Block.length_row, ← Block.row_replicate_zero]
  exact put_row as bs cs List.length_replicate

/-- **One block of a row.** It is the case in which a block is read to
be encrypted or copied. -/
theorem slice_block :
    slice (Block.row (as ++ [b] ++ cs)) (16 * as.length) (16 * as.length + 16)
      = .ok b.toBytes := by
  rw [← Block.row_singleton]
  exact slice_row as [b] cs

/-- **One block of a row replaced.** The blocks before it and behind it
stay. -/
theorem put_block (b' : Block) :
    put (Block.row (as ++ [b] ++ cs)) (16 * as.length) (16 * as.length + 16)
      b'.toBytes
        = .ok (Block.row (as ++ [b'] ++ cs)) := by
  rw [← Block.row_singleton b']
  exact put_row as [b] cs rfl

variable {i : Nat}

/-- A row cut inside one of its blocks. It is the common form of the two
lemmas below. -/
theorem row_cut (n : Nat) : Block.row (as ++ [b] ++ cs)
    = (Block.row as ++ b.toBytes.take i) ++ (b.toBytes.drop i).take n
      ++ (b.toBytes.drop (i + n) ++ Block.row cs) := by
  have hcut : b.toBytes
      = b.toBytes.take i
        ++ ((b.toBytes.drop i).take n ++ b.toBytes.drop (i + n)) := by
    rw [← List.drop_drop, List.take_append_drop, List.take_append_drop]
  rw [Block.row_append, Block.row_append, Block.row_singleton]
  calc Block.row as ++ b.toBytes ++ Block.row cs
      = Block.row as
        ++ (b.toBytes.take i
          ++ ((b.toBytes.drop i).take n ++ b.toBytes.drop (i + n)))
          ++ Block.row cs := congrArg (Block.row as ++ · ++ Block.row cs) hcut
    _ = _ := by simp only [List.append_assoc]

/-- **A range inside a block.** The bytes of a keystream block are taken
out in this way. -/
theorem slice_within {n : Nat} (h : i + n ≤ 16) :
    slice (Block.row (as ++ [b] ++ cs)) (16 * as.length + i)
      (16 * as.length + i + n)
        = .ok ((b.toBytes.drop i).take n) := by
  rw [row_cut as cs b n]
  refine slice_append ?_ ?_
  · rw [List.length_append, Block.length_row, List.length_take,
      Block.length_toBytes]
    omega
  · rw [List.length_take, List.length_drop, Block.length_toBytes]
    omega

/-- **A copy into a block.** Pending bytes are written in this way,
behind those that have been written before. -/
theorem put_within {src : Bytes} (h : i + src.length ≤ 16) :
    put (Block.row (as ++ [b] ++ cs)) (16 * as.length + i)
      (16 * as.length + i + src.length) src
        = .ok (Block.row (as ++ [b.write i src] ++ cs)) := by
  have hrange : ((b.toBytes.drop i).take src.length).length = src.length := by
    rw [List.length_take, List.length_drop, Block.length_toBytes]
    omega
  rw [row_cut as cs b src.length, Block.row_append, Block.row_append,
    Block.row_singleton,
    Block.toBytes_write h]
  have hbefore : (Block.row as ++ b.toBytes.take i).length
    = 16 * as.length + i := by
    rw [List.length_append, Block.length_row, List.length_take,
      Block.length_toBytes]
    omega
  rw [put_append hbefore (by omega) hrange.symm]
  simp only [List.append_assoc]

end

/-! ## Single bytes -/

variable {b : Block} {i : Nat}

/-- A byte of a block. The index is below sixteen, and so there is one:
no fault can come of looking. -/
theorem byteAt_toBytes (h : i < 16) : byteAt b.toBytes i = .ok b[i] := by
  have hget : b.toBytes[i]? = some b[i] := by
    rw [Block.toBytes, Vector.getElem?_toList, Vector.getElem?_eq_getElem h]
  unfold byteAt
  rw [hget]

/-- A byte of one of the blocks of a row replaced. The index is told by
the blocks before it and the place in the block. -/
theorem setByte_row (as cs : List Block) (h : i < 16) (byte : UInt8) :
    setByte (Block.row (as ++ [b] ++ cs)) (16 * as.length + i) byte
      = .ok (Block.row (as ++ [b.set i byte] ++ cs)) := by
  have hset : b.toBytes.set i byte = Block.toBytes (b.set i byte) := by
    rw [Block.toBytes, Block.toBytes, Vector.toList_set]
  unfold setByte
  have hinside : 16 * as.length + i < (Block.row (as ++ [b] ++ cs)).length := by
    simp only [Block.length_row, List.length_append, List.length_singleton]
    omega
  rw [if_pos hinside]
  simp only [Block.row_append, Block.row_singleton]
  rw [List.append_assoc,
    List.set_append_right _ _ (by rw [Block.length_row]; omega),
    Block.length_row, Nat.add_sub_cancel_left,
    List.set_append_left _ _ (by rw [Block.length_toBytes]; exact h), hset,
    List.append_assoc]

/-- A byte of a block replaced. It is the case of a row of one block,
with the index inside it. -/
theorem setByte_toBytes (h : i < 16) (byte : UInt8) :
    setByte b.toBytes i byte = .ok (Block.toBytes (b.set i byte)) := by
  simpa using setByte_row [] [] h byte

/-! ## Blocks and buffers -/

@[simp] theorem block_toBytes (b : Block) : block b.toBytes = .ok b := by
  unfold block
  rw [if_pos b.length_toBytes, Block.ofBytes_toBytes]

@[simp] theorem encrypt_toBytes (cipher : BlockCipher) (b : Block) :
    encrypt cipher b.toBytes = .ok (cipher.encrypt b).toBytes := by
  unfold encrypt
  rw [block_toBytes, ok_bind]
  rfl

/-- **A buffer grows without a fault** as long as it is not beyond all
measure: up to there the next power of two is a size that a row can
have. -/
theorem append_eq {buffer : Buffer UInt8} {elements : Bytes}
    (h : buffer.length + elements.length ≤ 2 ^ 62) :
    append buffer elements = .ok (buffer.append elements) := by
  have hceil := ceilPowerOfTwo_le h
  unfold append
  rw [add_eq (Nat.lt_of_le_of_lt h (by decide)), ok_bind,
    if_pos (Or.inr (Nat.le_trans hceil (by decide)))]
  rfl

/-- **A buffer that has grown** is the buffer with the elements, however
large it is. If it cannot grow so far, there is a fault and no buffer. -/
theorem ensures_append (buffer : Buffer UInt8) (elements : Bytes) :
    Ensures (· = buffer.append elements) (append buffer elements) := by
  unfold append
  refine .bind fun needed => ?_
  split
  · exact .ok rfl
  · exact nofun

end Checked

end Strongbox
