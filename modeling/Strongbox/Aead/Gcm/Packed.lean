import Strongbox.Aead.Gcm
import Strongbox.Checked

/-!
# Galois/counter mode in one row of bytes

A stream in Galois/counter mode as it lies in memory. Five blocks stand
in one row – start block, counter block, keystream block, pending block,
hash key – and everything that is done to them is done by ranges of that
row. How much of the pending block has arrived and how much of the
keystream block is spent is kept in two words beside it, from which the
ranges are computed.

Messages are taken in not byte by byte but by stretches: each pass of
the loops here (`absorb`, `crypt`) goes up to the end of a block or of
what is given.

Nothing about it is bound to succeed: every range, every copy and every
sum is `Checked`. That none of them ever goes wrong, and that a `Packed`
stream answers as a `Gcm` does, is shown in
`Strongbox.Proofs.Aead.Packed`.

## Cursors

The keystream position is sixteen when the block is used up, and then
the next byte asks for a new block; the pending length goes from zero to
fifteen between calls, and a block that has reached sixteen is flushed
at once. The ranges of the two blocks are computed from these words with
`Checked.add` and `Checked.sub`, and a wrong word would show as a fault.

A loop that makes no progress would never come to an end. Where the end
of a loop is not plain from its form, the loop asks whether it has come
nearer and reports `Fault.endless` if not; this is how the two loops
here are total functions, and that they never report it is part of what
is proved.

## Order

A decryption hashes a stretch before it is transformed, and an
encryption after it, since the hash takes in the ciphertext. Beyond
that, the order of the steps is visible only in what a fault would leave
behind.
-/

namespace Strongbox

/-- **A hash under way that is given whole pieces**, each of which it
fills up with zeros to whole blocks. It has no pending bytes: whoever
uses it keeps them. -/
structure Ghash.Accumulator where
  /-- The hash key. -/
  key : Block
  /-- The sum over the blocks so far. -/
  sum : Block
  deriving DecidableEq, Repr

namespace Ghash.Accumulator

/-- A hash without blocks, under a key that is read off a range. The
range has to be a block, or there is no hash. -/
def start (key : Bytes) : Checked Accumulator := do
  let key ← Checked.block key
  return ⟨key, Block.zero⟩

/-- The hash with a piece taken in. An empty piece has no block and
changes nothing. -/
def updatePadded (a : Accumulator) (piece : Bytes) : Accumulator :=
  { a with sum := (Block.split piece).foldl (Ghash.step a.key) a.sum }

/-- The hash that comes out. The hash may go on after it. -/
def finalize (a : Accumulator) : Bytes := a.sum.toBytes

end Ghash.Accumulator

namespace Aead.Gcm

open Checked

/-- **A stream in Galois/counter mode as it lies in memory.** The fields
beside the row are the words from which its ranges are computed, and the
hash. -/
structure Packed where
  /-- The keyed block cipher. -/
  cipher : BlockCipher
  /-- The hash of the blocks completed so far. -/
  hash : Ghash.Accumulator
  /-- The working state. -/
  row : Bytes
  /-- The length of the associated data so far. -/
  aadLength : Nat
  /-- The length of the message so far. -/
  messageLength : Nat
  /-- How many bytes of the pending block have arrived. -/
  pendingLength : Nat
  /-- How many bytes of the keystream block have been handed out. -/
  keystreamPosition : Nat
  /-- Whether the message has begun. -/
  inMessage : Bool

namespace Packed

/-- Where the start block stands. Every place is the one before it and
sixteen more. -/
def originAt : Nat := 0

/-- Where the counter block stands. The blocks before and behind it are
addressed together with it where one is copied into the other. -/
def counterAt : Nat := originAt + 16

/-- Where the keystream block stands. The byte at the keystream position
from here on is the next one to be handed out. -/
def keystreamAt : Nat := counterAt + 16

/-- Where the pending block stands. The bytes that are waiting for the
hash stand here. -/
def pendingAt : Nat := keystreamAt + 16

/-- Where the hash key stands. It is the only block of the row that a
reset leaves alone. -/
def hashKeyAt : Nat := pendingAt + 16

/-- The length of the row. It is five blocks. -/
def rowLength : Nat := hashKeyAt + 16

/-- A stream under a block cipher, before any nonce. The hash key is the
block of zeros that stands in its place, encrypted and put back. -/
def ofCipher (cipher : BlockCipher) : Checked Packed := do
  let row := Bytes.zeros rowLength
  let hashKey ← encrypt cipher (← slice row hashKeyAt (hashKeyAt + 16))
  let row ← put row hashKeyAt (hashKeyAt + 16) hashKey
  let hash ← Ghash.Accumulator.start (← slice row hashKeyAt (hashKeyAt + 16))
  return {
    cipher, hash, row
    aadLength := 0
    messageLength := 0
    pendingLength := 0
    keystreamPosition := 16
    inMessage := false }

/-- A hash without blocks under the hash key of the stream. It is read
off the row and not kept anywhere else. -/
def freshHash (p : Packed) : Checked Ghash.Accumulator := do
  Ghash.Accumulator.start (← slice p.row hashKeyAt (hashKeyAt + 16))

/-- **Writes the start block of a nonce.** Of twelve bytes the block is
wiped, the nonce written and the last byte set to one; of others, the
nonce and its length in bits are hashed. -/
def deriveOrigin (p : Packed) (nonce : Bytes) : Checked Packed :=
  if nonce.length = nonceLength then do
    let row ← wipe p.row originAt (originAt + 16)
    let row ← put row originAt (originAt + nonceLength) nonce
    let row ← setByte row (originAt + 15) 1
    return { p with row }
  else do
    let hash ← p.freshHash
    let bits ← mul nonce.length 8
    let lengths ← put (Bytes.zeros 16) 8 16 (Bytes.bigEndian 8 bits)
    let digest := ((hash.updatePadded nonce).updatePadded lengths).finalize
    let row ← put p.row originAt (originAt + 16) digest
    return { p with row }

/-- **Adds one to the number in the last four bytes of a block.** The
number is copied out, increased modulo `2 ^ 32` and copied back, and the
twelve bytes before it are not touched. -/
def increment (counter : Bytes) : Checked Bytes := do
  let word ← put (Bytes.zeros 4) 0 4 (← slice counter 12 counter.length)
  put counter 12 counter.length
    (Bytes.bigEndian 4 ((Bytes.ofBigEndian word + 1) % 0x100000000))

/-- **Makes the next keystream block** out of the counter block before
it. The two blocks lie side by side, so that one range holds both. -/
def nextKeystreamBlock (p : Packed) : Checked Packed := do
  let (counter, keystream) ← splitAt (← slice p.row counterAt pendingAt) 16
  let keystream ← put keystream 0 keystream.length counter
  let keystream ← encrypt p.cipher keystream
  let counter ← increment counter
  let row ← put p.row counterAt pendingAt (counter ++ keystream)
  return { p with row, keystreamPosition := 0 }

/-- **Adds the pending block into the hash**, filled up with zeros. The
place is wiped before the bytes that stood there are hashed. -/
def flushPending (p : Packed) : Checked Packed :=
  if p.pendingLength = 0 then return p
  else do
    let pending ← slice p.row pendingAt (pendingAt + 16)
    let arrived ← slice pending 0 p.pendingLength
    let row ← wipe p.row pendingAt (pendingAt + 16)
    return { p with
      hash := p.hash.updatePadded arrived
      row
      pendingLength := 0 }

/-- **Takes bytes into the hash**, each pass up to the end of the
pending block. If the pending block is full after a pass it is flushed,
and the next pass begins with an empty one. -/
def absorb (p : Packed) (data : Bytes) : Checked Packed :=
  if data.isEmpty then return p
  else do
    let room ← sub 16 p.pendingLength
    let taken := min room data.length
    let start ← add pendingAt p.pendingLength
    let stop ← add start taken
    let row ← put p.row start stop (← slice data 0 taken)
    let pendingLength ← add p.pendingLength taken
    let p := { p with row, pendingLength }
    let rest ← slice data taken data.length
    let p ← (if p.pendingLength = 16 then p.flushPending else pure p)
    if rest.length < data.length then absorb p rest else .error .endless
termination_by data.length

/-- **Transforms a stretch** for which there is enough of the keystream
block left. What the hash takes in is the ciphertext side of it. The
mask is the range of the keystream block from the position on, as long
as the piece. -/
def stretch (p : Packed) (direction : Direction) (piece : Bytes) :
    Checked (Bytes × Packed) := do
  let p ← (if direction = .decrypt then p.absorb piece else pure p)
  let start ← add keystreamAt p.keystreamPosition
  let mask ← slice p.row start (← add start piece.length)
  let result := List.zipWith (· ^^^ ·) piece mask
  let p ← (if direction = .encrypt then p.absorb result else pure p)
  let keystreamPosition ← add p.keystreamPosition piece.length
  return (result, { p with keystreamPosition })

/-- **Transforms a buffer from an offset on**, each pass up to the end
of the keystream block. What has been transformed before stands in
`done`. The result is put together from the stretches, in order. -/
def crypt (p : Packed) (direction : Direction) (buffer done : Bytes)
    (offset : Nat) :
    Checked (Bytes × Packed) :=
  if offset < buffer.length then do
    let p ← (if p.keystreamPosition = 16 then p.nextKeystreamBlock else pure p)
    let room ← sub 16 p.keystreamPosition
    let left ← sub buffer.length offset
    let stop ← add offset (min room left)
    let (result, p) ← p.stretch direction (← slice buffer offset stop)
    if offset < stop then crypt p direction buffer (done ++ result) stop
    else .error .endless
  else return (done, p)
termination_by buffer.length - offset

/-! ## The calls -/

/-- **Begins a message.** Start block, counter block and counts are made
new; keystream block and pending block are wiped in one range. -/
def reset (p : Packed) (nonce : Bytes) : Checked (Reply StreamError × Packed) :=
  if nonce.isEmpty then return (⟨.error (.nonceLength 0), []⟩, p)
  else do
    let p ← p.deriveOrigin nonce
    let (origin, counter) ← splitAt (← slice p.row originAt keystreamAt) 16
    let counter ← put counter 0 counter.length origin
    let counter ← increment counter
    let row ← put p.row originAt keystreamAt (origin ++ counter)
    let row ← wipe row keystreamAt hashKeyAt
    let p := { p with row }
    let hash ← p.freshHash
    return (⟨.ok (), []⟩, { p with
      hash
      aadLength := 0
      messageLength := 0
      pendingLength := 0
      keystreamPosition := 16
      inMessage := false })

/-- **Takes in associated data.** The new length is computed before
anything is hashed, and is kept. -/
def authenticate (p : Packed) (data : Bytes) :
    Checked (Reply StreamError × Packed) :=
  if p.inMessage then return (⟨.error .aadAfterMessage, []⟩, p)
  else
    match sumWithin? maxAadLength p.aadLength data.length with
    | none => return (⟨.error .aadTooLong, []⟩, p)
    | some aadLength => do
      let p ← absorb { p with aadLength } data
      return (⟨.ok (), []⟩, p)

/-- The stream with its message begun. What is pending of the associated
data is flushed, once for each message. -/
def beginMessage (p : Packed) : Checked Packed :=
  if p.inMessage then return p
  else do
    let p ← p.flushPending
    return { p with inMessage := true }

/-- **Transforms a buffer in place.** The new length is computed first
and written last. -/
def transform (p : Packed) (direction : Direction) (buffer : Bytes) :
    Checked (Reply StreamError × Packed) :=
  match sumWithin? maxMessageLength p.messageLength buffer.length with
  | none => return (⟨.error .messageTooLong, buffer⟩, p)
  | some messageLength => do
    let p ← p.beginMessage
    let (result, p) ← p.crypt direction buffer [] 0
    return (⟨.ok (), result⟩, { p with messageLength })

/-- A copy of the hash with what is pending added in. The stream itself
keeps what is pending, and may go on. -/
def pendingHash (p : Packed) : Checked Ghash.Accumulator :=
  if 0 < p.pendingLength then do
    let stop ← add pendingAt p.pendingLength
    let pending ← slice p.row pendingAt stop
    return p.hash.updatePadded pending
  else return p.hash

/-- **Writes the tag over a buffer.** The two lengths are made into a
block of bits, the hash is closed with it, and the mask is the start
block encrypted in a copy. -/
def tag (p : Packed) (buffer : Bytes) : Checked (Reply StreamError × Packed) :=
  if buffer.isEmpty ∨ buffer.length > maxTagLength then
    return (⟨.error (.tagLength buffer.length), buffer⟩, p)
  else do
    let hash ← p.pendingHash
    let lengths ← put (Bytes.zeros 16) 0 8
      (Bytes.bigEndian 8 (← mul p.aadLength 8))
    let lengths ← put lengths 8 16 (Bytes.bigEndian 8 (← mul p.messageLength 8))
    let digest := (hash.updatePadded lengths).finalize
    let origin ← slice p.row originAt (originAt + 16)
    let mask ← put (Bytes.zeros 16) 0 16 origin
    let mask ← encrypt p.cipher mask
    return (⟨.ok (),
        Bytes.overwrite (List.zipWith (· ^^^ ·) mask digest) buffer⟩, p)

end Packed

end Aead.Gcm

end Strongbox
