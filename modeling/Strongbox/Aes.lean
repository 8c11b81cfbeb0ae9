import Strongbox.Aes.SBox
import Strongbox.BlockCipher

/-!
# The AES block cipher

AES with keys of 128, 192 and 256 bits, in the encrypting direction
only: counter modes and CBC-MAC never run the cipher backwards.

## Columns

The state is four columns of four bytes, each held as a 32-bit word with
the first byte of the column in the high bits. Over whole columns one
round is short: byte `i` of an output column comes from the column `i`
places to the right (`ShiftRows`), passes through the substitution box
(`SubBytes`), and contributes a multiple of one fixed column
(`MixColumns`). The contribution of a first-row byte is listed once, in
`mixTable`; those of the other rows are its rotations. The last round
leaves `MixColumns` out.

## Keys

The key schedule makes one word after another, newest first, so that the
words it has to look back at are at known distances from the front of
the list. A key of `n` words is carried on to four words for every round
and four more, which are read in order and taken four at a time.

A `Cipher` is a key after its schedule, with the first and the last
round key apart from those between, since they are used differently.
There is one for each key of 16, 24 or 32 bytes and for no other key:
`ofKey?` says so, and what is made of it – a stream, a session – is
refused for any other length.

## One to one

The modes ask nothing of a block cipher but its function. That this one
is one to one under every key, which a theorem about altered messages
needs, is proved elsewhere, round by round from this definition.
-/

namespace Strongbox.Aes

/-- **The three key sizes.** The number of rounds goes with the size,
and so does the one irregularity of the key schedule. -/
inductive KeySize where
  /-- 16 bytes, ten rounds. -/
  | bits128
  /-- 24 bytes, twelve rounds. -/
  | bits192
  /-- 32 bytes, fourteen rounds. -/
  | bits256
  deriving DecidableEq, Repr

namespace KeySize

/-- The key size in bits. It is the number in the name of the cipher. -/
def bits : KeySize → Nat
  | bits128 => 128
  | bits192 => 192
  | bits256 => 256

/-- The key size in 32-bit words. It is the distance at which the key
schedule looks back. -/
def words (size : KeySize) : Nat := size.bits / 32

/-- The number of rounds: six more than the key has words. The three
sizes have ten, twelve and fourteen rounds. -/
def rounds (size : KeySize) : Nat := size.words + 6

/-- The key size of a key with this many bytes. There is none for any
other length, and what asks for a cipher is then refused. -/
def ofLength? : Nat → Option KeySize
  | 16 => some bits128
  | 24 => some bits192
  | 32 => some bits256
  | _ => none

end KeySize

/-- A 32-bit word from four bytes, the first one highest. Columns, key
words and table entries are all made by it. -/
def word (a b c d : UInt8) : UInt32 :=
  (a.toUInt32 <<< 24) ||| (b.toUInt32 <<< 16) ||| (c.toUInt32 <<< 8)
    ||| d.toUInt32

/-- Rotation of a word to the right by `n` bits, for `0 < n < 32`. It
turns the contribution of one row into that of another. -/
@[inline] def rotateRight (w : UInt32) (n : UInt32) : UInt32 :=
  (w >>> n) ||| (w <<< (32 - n))

/-- **Four columns**: the state between rounds, and also one round key.
Held as four words, a round is four equations of the same form. -/
structure Columns where
  /-- The first column. -/
  c0 : UInt32
  /-- The second column. -/
  c1 : UInt32
  /-- The third column. -/
  c2 : UInt32
  /-- The fourth column. -/
  c3 : UInt32
  deriving DecidableEq, Repr

namespace Columns

/-- A block read column by column, four bytes to a column and the first
of them highest. -/
def ofBlock (b : Block) : Columns where
  c0 := word (b.byte 0) (b.byte 1) (b.byte 2) (b.byte 3)
  c1 := word (b.byte 4) (b.byte 5) (b.byte 6) (b.byte 7)
  c2 := word (b.byte 8) (b.byte 9) (b.byte 10) (b.byte 11)
  c3 := word (b.byte 12) (b.byte 13) (b.byte 14) (b.byte 15)

/-- The block whose columns these are. It is the inverse of reading: a
block that goes through no round comes out as it went in. -/
def toBlock (s : Columns) : Block :=
  #v[(s.c0 >>> 24).toUInt8, (s.c0 >>> 16).toUInt8,
    (s.c0 >>> 8).toUInt8, s.c0.toUInt8,
    (s.c1 >>> 24).toUInt8, (s.c1 >>> 16).toUInt8,
    (s.c1 >>> 8).toUInt8, s.c1.toUInt8,
    (s.c2 >>> 24).toUInt8, (s.c2 >>> 16).toUInt8,
    (s.c2 >>> 8).toUInt8, s.c2.toUInt8,
    (s.c3 >>> 24).toUInt8, (s.c3 >>> 16).toUInt8,
    (s.c3 >>> 8).toUInt8, s.c3.toUInt8]

/-- Adding a round key. The round key has the form of the state, and
adding it twice takes it away again. -/
def add (s k : Columns) : Columns :=
  ⟨s.c0 ^^^ k.c0, s.c1 ^^^ k.c1, s.c2 ^^^ k.c2, s.c3 ^^^ k.c3⟩

end Columns

/-- What a first-row byte contributes to its column: the substituted
byte times the first column of the `MixColumns` matrix, which is `2, 1,
1, 3`. With this table one round needs sixteen looks and no
multiplication. -/
def mixTable : Vector UInt32 UInt8.size :=
  tabulate fun a =>
    let s := substitute a
    word (double s) s s (double s ^^^ s)

/-- One mixed column, from the four columns that `ShiftRows` takes its
bytes from. The four bytes are in different rows, so each contribution
is turned to its own row. -/
@[inline] def mixedColumn (a b c d : UInt32) : UInt32 :=
  look mixTable (a >>> 24).toUInt8
    ^^^ rotateRight (look mixTable (b >>> 16).toUInt8) 8
    ^^^ rotateRight (look mixTable (c >>> 8).toUInt8) 16
    ^^^ rotateRight (look mixTable d.toUInt8) 24

/-- One substituted column without mixing, as in the last round. It is
also the substitution of a word in the key schedule, with one word in
all four places. -/
@[inline] def plainColumn (a b c d : UInt32) : UInt32 :=
  word (substitute (a >>> 24).toUInt8) (substitute (b >>> 16).toUInt8)
    (substitute (c >>> 8).toUInt8) (substitute d.toUInt8)

/-- **A full round**: substitute, shift rows, mix columns, add the round
key. The first column of the output takes its bytes from all four
columns in order, and each other one begins one column further on. -/
def round (s k : Columns) : Columns :=
  ⟨mixedColumn s.c0 s.c1 s.c2 s.c3 ^^^ k.c0,
    mixedColumn s.c1 s.c2 s.c3 s.c0 ^^^ k.c1,
    mixedColumn s.c2 s.c3 s.c0 s.c1 ^^^ k.c2,
    mixedColumn s.c3 s.c0 s.c1 s.c2 ^^^ k.c3⟩

/-- **The last round**, which does not mix. Mixing there could be undone
without the key, and would add nothing. -/
def lastRound (s k : Columns) : Columns :=
  ⟨plainColumn s.c0 s.c1 s.c2 s.c3 ^^^ k.c0,
    plainColumn s.c1 s.c2 s.c3 s.c0 ^^^ k.c1,
    plainColumn s.c2 s.c3 s.c0 s.c1 ^^^ k.c2,
    plainColumn s.c3 s.c0 s.c1 s.c2 ^^^ k.c3⟩

/-! ## The key schedule -/

/-- The substitution box on each byte of a word. In one column all four
bytes come from the same word. -/
def substituteWord (w : UInt32) : UInt32 := plainColumn w w w w

/-- **One step of the key expansion.** The words so far come newest
first; the next one adds, to the word one key length back, the previous
word – rotated, substituted and offset by a power of `x` at the start of
each key length, and only substituted half way through a 256-bit one.
The number of words so far tells where in a key length the next one is,
and which power of `x` it takes. -/
def nextWord (n : Nat) (newestFirst : List UInt32) : UInt32 :=
  let i := newestFirst.length
  let previous := newestFirst.getD 0 0
  let fed :=
    if i % n = 0 then
      substituteWord (rotateRight previous 24)
        ^^^ word (power 2 (i / n - 1)) 0 0 0
    else if n = 8 ∧ i % n = 4 then substituteWord previous
    else previous
  newestFirst.getD (n - 1) 0 ^^^ fed

/-- The key expansion carried on for a number of steps, newest word
first. The recursion is on the number of words that are still to be
made. -/
def expand (n : Nat) : (steps : Nat) → List UInt32 → List UInt32
  | 0, ws => ws
  | steps + 1, ws => expand n steps (nextWord n ws :: ws)

/-- The words of a key, in order. The lengths of keys are multiples of
four, so that no byte is left over. -/
def keyWords : Bytes → List UInt32
  | a :: b :: c :: d :: rest => word a b c d :: keyWords rest
  | _ => []

/-- Words taken four at a time. There are four words for every round
key, so that none is left over either. -/
def roundKeys : List UInt32 → List Columns
  | a :: b :: c :: d :: rest => ⟨a, b, c, d⟩ :: roundKeys rest
  | _ => []

/-- **A key made ready for encryption.** How many rounds there are is
the number of inner keys and one. -/
structure Cipher where
  /-- The size of the key. -/
  size : KeySize
  /-- The round key added before the first round. -/
  whitening : Columns
  /-- The round keys of the rounds that mix. -/
  inner : List Columns
  /-- The round key of the last round. -/
  final : Columns
  deriving DecidableEq, Repr

/-- The cipher of a key, when its length is one of the three. The blank
columns stand where a list of round keys would be empty, which it is for
none of the three sizes. -/
def Cipher.ofKey? (key : Bytes) : Option Cipher := do
  let size ← KeySize.ofLength? key.length
  let extra := 4 * (size.rounds + 1) - size.words
  let keys := roundKeys (expand size.words extra (keyWords key).reverse).reverse
  let blank : Columns := ⟨0, 0, 0, 0⟩
  return {
    size
    whitening := keys.headD blank
    inner := keys.tail.dropLast
    final := keys.getLastD blank }

/-- **The cipher on one block.** The first round key is added before the
first round, and every round ends with adding its own. -/
def Cipher.encrypt (cipher : Cipher) (b : Block) : Block :=
  let start := (Columns.ofBlock b).add cipher.whitening
  (lastRound (cipher.inner.foldl round start) cipher.final).toBlock

/-- **AES under a key as a block cipher**, when the key's length is one
of the three. The name carries the key size, and is what a session
shows. -/
def blockCipher? (key : Bytes) : Option BlockCipher :=
  (Cipher.ofKey? key).map fun cipher =>
    ⟨s!"AES-{cipher.size.bits}", cipher.encrypt⟩

/-- A cipher exists exactly for keys of 16, 24 and 32 bytes, and
remembers which. The size is what the name and the number of rounds are
taken from. -/
theorem Cipher.size_of_ofKey? {key : Bytes} {cipher : Cipher}
    (h : ofKey? key = some cipher) :
    KeySize.ofLength? key.length = some cipher.size := by
  unfold ofKey? at h
  cases hs : KeySize.ofLength? key.length with
  | none => simp [hs] at h
  | some size =>
    simp only [hs, Option.bind_eq_bind, Option.bind_some, Option.pure_def,
      Option.some.injEq] at h
    rw [← h]

/-- A key of one of the three lengths has a cipher: nothing else is
asked of a key. -/
theorem Cipher.isSome_ofKey? {key : Bytes} :
    (ofKey? key).isSome = (KeySize.ofLength? key.length).isSome := by
  unfold ofKey?
  cases KeySize.ofLength? key.length <;> rfl

end Strongbox.Aes
