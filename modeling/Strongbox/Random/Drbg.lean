import Strongbox.Blake3
import Strongbox.Random.Words

/-!
# A deterministic generator

A `Drbg` stretches seed material into a stream of words with a hash. It
holds 96 bytes – a key of 32 and behind it a block of 64 bytes of output
– and a cursor into the block. When the block is used up, the hash of a
counter under the key yields 96 new bytes: the next key and the next
block. Reseeding hashes new material under the key into the next key,
and discards what was left of the block.

The hash is BLAKE3. Nothing here depends on which one it is, so the
generator asks for no more than a `KeyedHash`; whoever names none gets
BLAKE3.

## Erasure

What has been handed out cannot be computed again from what is kept. A
key is replaced by the same hash that makes the block it is responsible
for, and a word is wiped from the block as it is handed out.

## Inputs of the hash

Every string that is hashed says how long its material is. `seedInput`
is the one hashed at the beginning, `reseedInput` the one hashed under a
label, `refillInput` the one hashed for the next block.
-/

namespace Strongbox.Random

/-- **A hash with output of any length**, in the two forms that a
generator uses. What is proved of a generator is proved for all of them,
among them such as are no good as hashes. -/
class KeyedHash where
  /-- The hash of an input under a key, so many bytes of it. -/
  keyed : (key input : Bytes) → (n : Nat) → Bytes
  /-- The hash of key material in a context, so many bytes of it. -/
  deriveKey : (context material : Bytes) → (n : Nat) → Bytes
  /-- As many bytes come as are asked for. -/
  length_keyed (key input : Bytes) (n : Nat) : (keyed key input n).length = n
  /-- As many bytes come as are asked for. -/
  length_deriveKey (context material : Bytes) (n : Nat) :
    (deriveKey context material n).length = n

attribute [simp] KeyedHash.length_keyed KeyedHash.length_deriveKey

/-- **BLAKE3 is the hash of a generator** that is given no other, and
the one that runs. -/
instance : KeyedHash where
  keyed := Blake3.keyed
  deriveKey := Blake3.deriveKey
  length_keyed := Blake3.length_keyed
  length_deriveKey := Blake3.length_deriveKey

namespace Drbg

/-- The bytes of a key. It is the length that a keyed hash takes. -/
def keyLength : Nat := 32

/-- The bytes of a block. It is sixteen words. -/
def blockLength : Nat := 64

/-- The bytes of a key and a block. A refill asks the hash for so many. -/
def stateLength : Nat := keyLength + blockLength

/-- The bytes of a word. A word is read from the block with the least
significant byte first. -/
def wordLength : Nat := 4

end Drbg

/-- **The generator between two draws.** The key and the block lie in
one row, because one output of the hash is written over both. -/
structure Drbg where
  /-- The key of the next hash, and behind it the current block of
  output, wiped up to the cursor. -/
  state : Bytes
  /-- There is always a key and a block. -/
  length_state : state.length = Drbg.stateLength
  /-- How many bytes of the block have been handed out. -/
  cursor : Nat
  /-- How many blocks have been made. -/
  counter : UInt64
  deriving DecidableEq, Repr

namespace Drbg

/-- The key of the next hash. Only a hash changes it. -/
def key (d : Drbg) : Bytes := d.state.take keyLength

/-- What has not been handed out of the block yet. The words that are
still to come are these bytes, read in order. -/
def waiting (d : Drbg) : Bytes := d.state.drop (keyLength + d.cursor)

/-- What is waiting is what the cursor has left of the block. -/
theorem length_waiting (d : Drbg) :
    d.waiting.length = blockLength - d.cursor := by
  rw [waiting, List.length_drop, d.length_state, stateLength,
    Nat.add_sub_add_left]

/-- The context in which seed material becomes the first key. It tells
the hash of this generator from every other use of the hash. -/
def context : Bytes :=
  Bytes.ascii "bastion-rand 2026-01-01 generator instantiate v1"

/-- What is hashed at the beginning: the length of the material, the
material. The length makes sure that material with zeros behind it is
other material. -/
def seedInput (material : Bytes) : Bytes :=
  Bytes.littleEndian 8 material.length ++ material

/-- What is hashed to reseed: a label, the length of the material, the
material. Nothing tells where the label ends; the labels of the library
are such that it can be told. -/
def reseedInput (label material : Bytes) : Bytes :=
  label ++ Bytes.littleEndian 8 material.length ++ material

/-- What is hashed for the next block: the counter. No other input of
the hash under a key is as short, except that of an empty label with no
material. -/
def refillInput (counter : UInt64) : Bytes := Bytes.littleEndian 8 counter.toNat

variable [KeyedHash]

/-- **A generator from seed material**, with no block yet. The cursor is
at the end of the block, so that the first word makes one. -/
def ofSeed (material : Bytes) : Drbg where
  state := KeyedHash.deriveKey context (seedInput material) keyLength
    ++ Bytes.zeros blockLength
  length_state := by simp [stateLength]
  cursor := blockLength
  counter := 0

/-- **Takes in new material under a label.** What was left of the block
is wiped; the counter goes on. The cursor is put to the end of the
block, as at the beginning. -/
def reseed (d : Drbg) (label material : Bytes) : Drbg :=
  { d with
    state := KeyedHash.keyed d.key (reseedInput label material) keyLength
      ++ Bytes.zeros blockLength
    length_state := by simp [stateLength]
    cursor := blockLength }

/-- **Makes the next key and the next block**, over the old ones. One
output of the hash is the new key and the new block, and the cursor is
at the beginning of it. -/
def refill (d : Drbg) : Drbg where
  state := KeyedHash.keyed d.key (refillInput d.counter) stateLength
  length_state := KeyedHash.length_keyed ..
  cursor := 0
  counter := d.counter + 1

/-- The word at the cursor, and the generator with its bytes wiped. The
cursor moves behind the word, and the rest of the state is as it was. -/
def takeWord (d : Drbg) : UInt32 × Drbg :=
  (UInt32.ofNat (Bytes.ofLittleEndian (d.waiting.take wordLength)), { d with
    state := d.state.take (keyLength + d.cursor)
      ++ Bytes.overwrite (Bytes.zeros wordLength) d.waiting
    length_state := by
      rw [List.length_append, Bytes.length_overwrite, waiting,
        ← List.length_append,
        List.take_append_drop, d.length_state]
    cursor := d.cursor + wordLength })

/-- **The next word**, from a new block if the current one is used up.
The cursor moves by words, so that there is never a part of one left. -/
def word (d : Drbg) : UInt32 × Drbg :=
  if d.cursor + wordLength > blockLength then d.refill.takeWord else d.takeWord

/-- **The next 64-bit word**: two words, the first one low. They may
come from two blocks. -/
def wide (d : Drbg) : UInt64 × Drbg := wideFrom word d

/-- **A number of bytes**, in whole words. What is left of the last word
is lost. -/
def fill (d : Drbg) (n : Nat) : Bytes × Drbg := fillFrom word d n

@[simp] theorem length_fill (d : Drbg) (n : Nat) : (d.fill n).1.length = n :=
  length_fillFrom word d n

/-- **A generator is a source of words**, as whoever draws nonces from
it needs. -/
instance : RandomSource Drbg where
  word := word
  fill := fill

/-- How every generator shows itself: nothing of its state. It is one
text for all generators. -/
def description : String := "Generator \x7b state: \"REDACTED\" \x7d"

/-! ## Histories -/

/-- **A call to a generator.** They are the operations that the library
hands on to whoever holds a generator. -/
inductive Call where
  /-- The next word. -/
  | word
  /-- The next 64-bit word. -/
  | wide
  /-- A number of bytes. -/
  | fill (n : Nat)
  /-- New material under a label. -/
  | reseed (label material : Bytes)
  /-- Its description. -/
  | describe
  deriving DecidableEq, Repr

/-- **What a generator answers.** A call has one kind of answer,
whatever the state is. -/
inductive Reply where
  /-- A word. -/
  | word (value : UInt32)
  /-- A 64-bit word. -/
  | wide (value : UInt64)
  /-- Bytes. -/
  | bytes (value : Bytes)
  /-- A text. -/
  | text (value : String)
  /-- Nothing but that it is done. -/
  | done
  deriving DecidableEq, Repr

/-- **How many random bytes a call asks for.** It tells how many words
the call will take, which is what two runs of the same calls have in
common. -/
def Call.size : Call → Nat
  | word => wordLength
  | wide => 2 * wordLength
  | fill n => n
  | reseed _ _ | describe => 0

/-- **The random bytes in an answer**, numbers with the least
significant byte first. There are as many as the call has asked for. -/
def Reply.output : Reply → Bytes
  | word value => Bytes.ofWord value
  | wide value => Bytes.littleEndian (2 * wordLength) value.toNat
  | bytes value => value
  | text _ | done => []

/-- **Answers one call.** Each call is one function of the generator,
and none of them can be refused. -/
def step (d : Drbg) : Call → Reply × Drbg
  | .word => (.word d.word.1, d.word.2)
  | .wide => (.wide d.wide.1, d.wide.2)
  | .fill n => (.bytes (d.fill n).1, (d.fill n).2)
  | .reseed label material => (.done, d.reseed label material)
  | .describe => (.text description, d)

/-- **Answers a history of calls**, and gives the generator after it.
The answers come in the order of the calls. -/
def run (d : Drbg) : List Call → List Reply × Drbg
  | [] => ([], d)
  | call :: calls =>
    let (reply, d) := d.step call
    let (replies, d) := run d calls
    (reply :: replies, d)

end Drbg

end Strongbox.Random
