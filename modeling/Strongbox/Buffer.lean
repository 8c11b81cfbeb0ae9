/-!
# Wiped buffers

A buffer for secrets that grows and shrinks like a list, and never
leaves an element behind in memory that it has given up.

A `Buffer` owns a row of slots, of which the first `length` hold its
elements. Every other slot holds the zero of the element type: slots are
wiped when the buffer shrinks, a new row is wiped before it is used, and
an old row is wiped before it is let go. When there is not room enough,
the buffer moves to a row of the next power of two slots; otherwise it
stays where it is, and it never moves to a smaller row.

`Buffer.toList` is the elements, in order. What each operation does to
them is what the operation of that name does to a list.

## Secrets in the slots

What must not happen is that a copy of a secret stays behind where no
one looks any more. There are three places for that: the slots behind
the last element, the row that was left when the buffer moved, and the
source a buffer was filled from. The first are part of the state and can
be spoken of: that `spare` is wiped after every change is what is
proved. A row that was left is wiped before it is let go, and is not
part of the state afterwards. A source is handed back as it is left,
which is what the second part of `drain` is for.

## Capacity

The number of slots is a matter of history, not of the elements: it goes
up when there is not room enough, to the next power of two, and never
goes down. What it is after a history of changes is computed from the
origin of the buffer and the largest length it has had.

## Lists

`Change.onList` says what a change does to a list, without slots. It is
written apart from the operations on buffers and shares nothing with
them, and the elements of a buffer are held to it.
-/

namespace Strongbox

/-- **A type of elements that can be wiped**: it has a value that counts
as nothing. The value need not be a number; of a truth value it is
`false`. -/
class Wipeable (α : Type) where
  /-- The value that a wiped slot holds. -/
  zero : α

instance : Wipeable UInt8 := ⟨0⟩
instance : Wipeable UInt32 := ⟨0⟩
instance : Wipeable Int64 := ⟨0⟩
instance : Wipeable Char := ⟨Char.ofNat 0⟩
instance : Wipeable Bool := ⟨false⟩

/-- The smallest power of two that is at least a number. Of zero it is
one, as of one. -/
def ceilPowerOfTwo (n : Nat) : Nat :=
  if n ≤ 1 then 1 else 1 <<< ((n - 1).log2 + 1)

/-- There is room for as many elements as were asked for. -/
theorem le_ceilPowerOfTwo (n : Nat) : n ≤ ceilPowerOfTwo n := by
  unfold ceilPowerOfTwo
  split
  · assumption
  · have h : n - 1 < 2 ^ ((n - 1).log2 + 1) := Nat.lt_log2_self
    rw [Nat.one_shiftLeft]
    omega

/-- **A buffer that wipes what it gives up.** The length is kept apart
from the slots, as a vector keeps it apart from its memory. -/
structure Buffer (α : Type) where
  /-- All slots, whether they hold an element or not. -/
  slots : List α
  /-- How many elements there are. -/
  length : Nat
  deriving DecidableEq, Repr

namespace Buffer

variable {α : Type}

/-- **The elements**, in order. What lies in the slots behind them is
not part of it. -/
def toList (b : Buffer α) : List α := b.slots.take b.length

/-- How many slots there are. Growing within it moves nothing. -/
def capacity (b : Buffer α) : Nat := b.slots.length

/-- Whether there is no element. Slots do not count. -/
def isEmpty (b : Buffer α) : Bool := b.length = 0

/-- The slots that hold no element. They are behind the elements, and
are wiped at all times. -/
def spare (b : Buffer α) : List α := b.slots.drop b.length

/-- The element at an index, if the index is below the length. An index
into the spare slots is refused like one past the row. -/
def get? (b : Buffer α) (i : Nat) : Option α :=
  if i < b.length then b.slots[i]? else none

/-- The elements replaced by others, as many of them; spare slots stay.
It is the common form of every change that moves nothing and keeps the
length. -/
def withElements (b : Buffer α) (elements : List α) : Buffer α :=
  { b with slots := elements ++ b.spare }

/-- Writes an element at an index, if the index is below the length.
There is no buffer if the index is refused, and then nothing is changed. -/
def set? (b : Buffer α) (i : Nat) (value : α) : Option (Buffer α) :=
  if i < b.length then some { b with slots := b.slots.set i value } else none

/-- **Writes the same value over every element.** The length stays, and
so do the spare slots. -/
def fill (b : Buffer α) (value : α) : Buffer α :=
  b.withElements (List.replicate b.length value)

/-- **Reverses the elements in place.** The spare slots stay behind the
elements. -/
def reverse (b : Buffer α) : Buffer α := b.withElements b.toList.reverse

/-- How a buffer shows itself: how large it is, and nothing of what it
holds. Two buffers of one size show the same text, whatever they hold. -/
def describe (b : Buffer α) : String :=
  "SecureBuffer \x7b data: \"REDACTED\", len: " ++ toString b.length
    ++ ", capacity: " ++ toString b.capacity ++ " \x7d"

section

variable [Wipeable α]

/-- A row of wiped slots. New rows and slots given up both look like
this. -/
def wiped (n : Nat) : List α := List.replicate n Wipeable.zero

/-- A buffer without slots. There is nothing to wipe in it, and the
first element makes it move. -/
def empty : Buffer α := ⟨[], 0⟩

/-- **A buffer of a given number of slots**, without elements. The slots
are wiped before there is anything in them, and there are exactly so
many: no power of two is taken here. -/
def withCapacity (n : Nat) : Buffer α := ⟨wiped n, 0⟩

/-- **Makes room** for a number of elements. What is not enough is
replaced by the next power of two. The elements are carried over to the
new row, and all slots behind them are wiped. -/
def reserve (b : Buffer α) (needed : Nat) : Buffer α :=
  if needed ≤ b.capacity then b
  else
    { b with
      slots := b.toList ++ wiped (ceilPowerOfTwo needed - b.length) }

/-- **Appends elements.** Room is made first, so that what is written
always fits. -/
def append (b : Buffer α) (elements : List α) : Buffer α :=
  let b := b.reserve (b.length + elements.length)
  { slots := b.toList ++ elements ++ b.slots.drop (b.length + elements.length)
    length := b.length + elements.length }

/-- **Appends one element.** It is appending a list of one. -/
def push (b : Buffer α) (value : α) : Buffer α := b.append [value]

/-- A buffer with the given elements and no spare slot. There are
exactly as many slots as elements, since room has been made for them
before. -/
def ofList (elements : List α) : Buffer α :=
  (withCapacity elements.length).append elements

/-- **A buffer that takes its elements from a source**, and the source
wiped after it. The source keeps its length, and what was in it is in
the buffer only. -/
def drain (source : List α) : Buffer α × List α :=
  (ofList source, wiped source.length)

/-- **Shortens the buffer**, and wipes the slots given up. A length that
is not shorter changes nothing. The slots that are given up are wiped
where they are, and become spare. -/
def truncate (b : Buffer α) (n : Nat) : Buffer α :=
  if b.length ≤ n then b
  else
    { slots := b.slots.take n ++ wiped (b.length - n) ++ b.spare
      length := n }

/-- **Brings the buffer to a length**: longer with copies of a value, or
shorter without regard to it. This is the one change that may go either
way. -/
def resizeWith (b : Buffer α) (n : Nat) (value : α) : Buffer α :=
  if n ≤ b.length then b.truncate n
  else b.append (List.replicate (n - b.length) value)

/-- **Brings the buffer to a length**, longer with zeros. Zero is the
value of a wiped slot. -/
def resize (b : Buffer α) (n : Nat) : Buffer α := b.resizeWith n Wipeable.zero

/-- **Gives up all elements**, and wipes every slot. The slots stay.
Clearing twice is clearing once. -/
def clear (b : Buffer α) : Buffer α := ⟨wiped b.capacity, 0⟩

end

/-! ## Histories -/

/-- **How a buffer begins.** There are four ways to a buffer, and a
history of changes begins with one of them. -/
inductive Origin (α : Type) where
  /-- Without slots. -/
  | empty
  /-- With a number of slots. -/
  | withCapacity (n : Nat)
  /-- With the elements of a list. -/
  | ofList (elements : List α)
  /-- With the elements of a source, which is wiped. -/
  | drain (source : List α)
  deriving DecidableEq, Repr

/-- The buffer of an origin. Each way is one of the functions above. -/
def Origin.buffer [Wipeable α] : Origin α → Buffer α
  | empty => Buffer.empty
  | withCapacity n => Buffer.withCapacity n
  | ofList elements => Buffer.ofList elements
  | drain source => (Buffer.drain source).1

/-- The source afterwards, where a buffer is drained from one. In the
other ways nothing is taken from anyone. -/
def Origin.source? [Wipeable α] : Origin α → Option (List α)
  | empty | withCapacity _ | ofList _ => none
  | drain source => some (Buffer.drain source).2

/-- **A change to a buffer.** Each of them is one operation with its
arguments. Those that only look at a buffer are not among them. -/
inductive Change (α : Type) where
  /-- Append one element. -/
  | push (value : α)
  /-- Append elements. -/
  | append (elements : List α)
  /-- Shorten. -/
  | truncate (n : Nat)
  /-- Bring to a length, with zeros. -/
  | resize (n : Nat)
  /-- Bring to a length, with copies of a value. -/
  | resizeWith (n : Nat) (value : α)
  /-- Give up all elements. -/
  | clear
  /-- Write an element at an index; past the end this changes nothing. -/
  | set (i : Nat) (value : α)
  /-- Write a value over every element. -/
  | fill (value : α)
  /-- Reverse the elements. -/
  | reverse
  deriving DecidableEq, Repr

/-- **What a change does to a list**, which is what it does to the
elements of a buffer. Each line is a function on lists that anyone would
write down for the name of the change. -/
def Change.onList [Wipeable α] (xs : List α) : Change α → List α
  | push value => xs ++ [value]
  | append elements => xs ++ elements
  | truncate n => xs.take n
  | resize n => xs.take n ++ List.replicate (n - xs.length) Wipeable.zero
  | resizeWith n value => xs.take n ++ List.replicate (n - xs.length) value
  | clear => []
  | set i value => xs.set i value
  | fill value => List.replicate xs.length value
  | reverse => xs.reverse

/-- **The buffer after a change.** Writing past the end is refused by
the operation, and the buffer is then as it was. -/
def change [Wipeable α] (b : Buffer α) : Change α → Buffer α
  | .push value => b.push value
  | .append elements => b.append elements
  | .truncate n => b.truncate n
  | .resize n => b.resize n
  | .resizeWith n value => b.resizeWith n value
  | .clear => b.clear
  | .set i value => (b.set? i value).getD b
  | .fill value => b.fill value
  | .reverse => b.reverse

end Buffer

end Strongbox
