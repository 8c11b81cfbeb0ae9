import Strongbox.Aead.Ccm
import Strongbox.Checked

/-!
# Counter with CBC-MAC mode in one row of bytes

A stream in counter with CBC-MAC mode as it lies in memory. Four blocks
stand in one row – counter block, keystream block, chaining value, nonce
– and beside it two buffers that grow with the message, one for the
associated data and one for the plaintext. The nonce is as long as a
word beside the row says, and no message has been begun as long as that
word is zero.

The chaining value is written anew for every tag, over whatever the tag
before it has left there. As in `Strongbox.Aead.Gcm.Packed`, everything
is done by ranges, and every range, every copy and every sum is
`Checked`.

## The chain in a range

`CbcMac.Packed` is a chain that runs in a range it has been lent. It
wipes the range, adds bytes to it one at a time and encrypts it where it
stands. What it is lent here is the third block of the row; the range is
cut out, the chain runs, and the result is put back. A chain may be
begun in the range as often as one likes, and the calls on it are those
of `CbcMac.Call`.

## Numbers behind the nonce

The number of a block is as wide as the nonce leaves it. It is written
by taking the last bytes of a number of eight, and counted up by a carry
that begins with its last byte and ends where a byte does not overflow.
The longest message is what such a number can count, and when it would
have eight bytes or more, what a word can count: the power of two is
then not one of a word, and is not computed.
-/

namespace Strongbox

open Checked

/-- **A chain under way in a borrowed range.** Whoever lends the range
gets it back as `state`. -/
structure CbcMac.Packed where
  /-- The range, in which the chaining value stands. -/
  state : Bytes
  /-- How many bytes of the block under way have been added. -/
  filled : Nat
  deriving DecidableEq, Repr

namespace CbcMac.Packed

/-- A chain begins with a wiped range. The length of the range is not
looked at until it is encrypted. -/
def start (state : Bytes) : Packed := ⟨Bytes.zeros state.length, 0⟩

/-- Takes in the next byte. The byte is read, added to and written back,
and the sixteenth one encrypts the range. -/
def push (cipher : BlockCipher) (mac : Packed) (byte : UInt8) :
    Checked Packed := do
  let state ← setByte mac.state mac.filled
    ((← byteAt mac.state mac.filled) ^^^ byte)
  let filled ← add mac.filled 1
  if filled = 16 then return ⟨← encrypt cipher state, 0⟩
  else return ⟨state, filled⟩

/-- **Takes in the next bytes.** The first fault ends it. -/
def update (cipher : BlockCipher) (mac : Packed) (data : Bytes) :
    Checked Packed :=
  data.foldlM (push cipher) mac

/-- **Closes the block under way.** At a block boundary nothing is
encrypted. -/
def pad (cipher : BlockCipher) (mac : Packed) : Checked Packed :=
  if 0 < mac.filled then do return ⟨← encrypt cipher mac.state, 0⟩
  else return mac

/-- One call. Beginning cannot go wrong; the other two may. -/
def step (cipher : BlockCipher) (mac : Packed) : Call → Checked Packed
  | .start => return start mac.state
  | .update data => mac.update cipher data
  | .pad => mac.pad cipher

/-- **A list of calls**, one after the other. It ends with the first
fault, if there is one. -/
def run (cipher : BlockCipher) (mac : Packed) (calls : List Call) :
    Checked Packed :=
  calls.foldlM (step cipher) mac

theorem run_cons (cipher : BlockCipher) (mac : Packed) (call : Call)
    (later : List Call) :
    mac.run cipher (call :: later) = mac.step cipher call
      >>= fun mac => mac.run cipher later :=
  List.foldlM_cons

theorem run_append (cipher : BlockCipher) (mac : Packed) (a b : List Call) :
    mac.run cipher (a ++ b) = mac.run cipher a
      >>= fun mac => mac.run cipher b :=
  List.foldlM_append

end CbcMac.Packed

namespace Aead.Ccm

/-- **A stream in counter with CBC-MAC mode as it lies in memory.** The
row holds blocks of a fixed length, and the buffers hold what grows. -/
structure Packed where
  /-- The keyed block cipher. -/
  cipher : BlockCipher
  /-- The length of every tag of the stream. -/
  tagLength : Nat
  /-- The working state. -/
  row : Bytes
  /-- The associated data so far. -/
  aad : Buffer UInt8
  /-- The plaintext so far. -/
  message : Buffer UInt8
  /-- The length of the nonce; zero before the first one. -/
  nonceLength : Nat
  /-- How many bytes of the keystream block have been handed out. -/
  keystreamPosition : Nat

namespace Packed

/-- Where the counter block stands. Every place is the one before it and
sixteen more. -/
def counterAt : Nat := 0

/-- Where the keystream block stands. It follows the counter block, so
that one range holds both. -/
def keystreamAt : Nat := counterAt + 16

/-- Where the chaining value stands. What stands here between two tags
is what the last one has left. -/
def macAt : Nat := keystreamAt + 16

/-- Where the nonce stands. A nonce does not fill its block, and what is
behind it are zeros. -/
def nonceAt : Nat := macAt + 16

/-- The length of the row. It is four blocks. -/
def rowLength : Nat := nonceAt + 16

/-- A stream under a block cipher, with tags of a fixed length, before
any nonce. There is no nonce, which its length says, and no keystream
block. -/
def ofCipher (cipher : BlockCipher) (tagLength : Nat) : Packed where
  cipher
  tagLength
  row := Bytes.zeros rowLength
  aad := Buffer.empty
  message := Buffer.empty
  nonceLength := 0
  keystreamPosition := 16

/-- The width of the number that stands behind the nonce. Were the nonce
longer than fifteen bytes, there would be no such width. -/
def lengthWidth (p : Packed) : Checked Nat := sub 15 p.nonceLength

/-- **The length of the longest message** under the nonce. A number of
eight bytes counts as far as a word does. It is computed anew whenever
it is asked for. -/
def maxMessageLength (p : Packed) : Checked Nat := do
  let width ← p.lengthWidth
  if 8 ≤ width then return wordLimit - 1
  else do
    let bits ← mul 8 width
    sub (← powerOfTwo bits) 1

/-- **A block around the nonce**: flags, nonce, number. Counter blocks
and the opening block are all made by it. -/
def formatBlock (p : Packed) (flags : UInt8) (number : Nat) :
    Checked Bytes := do
  let width ← p.lengthWidth
  let block ← setByte (Bytes.zeros 16) 0 flags
  let numberAt ← add 1 p.nonceLength
  let stop ← add nonceAt p.nonceLength
  let block ← put block 1 numberAt (← slice p.row nonceAt stop)
  let number := Bytes.bigEndian 8 number
  put block numberAt block.length (← slice number (← sub 8 width) number.length)

/-- **Carries one** into a number, its least significant byte first. The
end of the list is reached only if every byte overflows, and the number
is then zero. -/
def carry : Bytes → Bytes
  | [] => []
  | byte :: rest => if byte + 1 ≠ 0 then (byte + 1) :: rest else 0 :: carry rest

/-- **Makes the next keystream block** out of the counter block before
it, in which the number is the last bytes, as many as the nonce leaves.
The counter block is copied before it is encrypted, and counted up after
it. -/
def nextKeystreamBlock (p : Packed) : Checked Packed := do
  let (counter, keystream) ← splitAt (← slice p.row counterAt macAt) 16
  let keystream ← put keystream 0 keystream.length counter
  let keystream ← encrypt p.cipher keystream
  let width ← sub 15 p.nonceLength
  let numberAt ← sub 16 width
  let number ← slice counter numberAt counter.length
  let counter ← put counter numberAt counter.length
    (carry number.reverse).reverse
  let row ← put p.row counterAt macAt (counter ++ keystream)
  return { p with row, keystreamPosition := 0 }

/-- **Combines a stretch with the keystream**, for which there is enough
of the keystream block left. The keystream is the same in both
directions, and nothing is hashed. -/
def stretch (p : Packed) (piece : Bytes) : Checked (Bytes × Packed) := do
  let start ← add keystreamAt p.keystreamPosition
  let mask ← slice p.row start (← add start piece.length)
  let keystreamPosition ← add p.keystreamPosition piece.length
  return (List.zipWith (· ^^^ ·) piece mask, { p with keystreamPosition })

/-- **Combines a buffer with the keystream from an offset on**, each
pass up to the end of the keystream block. What has been done before
stands in `done`. Each pass ends nearer to the end of the buffer, and
says so if it does not. -/
def applyKeystream (p : Packed) (buffer done : Bytes) (offset : Nat) :
    Checked (Bytes × Packed) :=
  if offset < buffer.length then do
    let p ← (if p.keystreamPosition = 16 then p.nextKeystreamBlock else pure p)
    let room ← sub 16 p.keystreamPosition
    let left ← sub buffer.length offset
    let stop ← add offset (min room left)
    let (result, p) ← p.stretch (← slice buffer offset stop)
    if offset < stop then applyKeystream p buffer (done ++ result) stop
    else .error .endless
  else return (done, p)
termination_by buffer.length - offset

/-! ## The calls -/

/-- **Begins a message.** The whole row is wiped, the nonce written, and
the first counter block made; the buffers are cleared and keep their
slots. -/
def reset (p : Packed) (nonce : Bytes) : Checked (Reply StreamError × Packed) :=
  if nonce.length < minNonceLength ∨ maxNonceLength < nonce.length then
    return (⟨.error (.nonceLength nonce.length), []⟩, p)
  else do
    let row ← wipe p.row 0 p.row.length
    let stop ← add nonceAt nonce.length
    let row ← put row nonceAt stop nonce
    let p := { p with row, nonceLength := nonce.length }
    let width ← p.lengthWidth
    let counter ← p.formatBlock (UInt8.ofNat (← sub width 1)) 1
    let row ← put p.row counterAt (counterAt + 16) counter
    return (⟨.ok (), []⟩, { p with
      row
      aad := p.aad.clear
      message := p.message.clear
      keystreamPosition := 16 })

/-- **Takes in associated data.** Two questions come before it: whether
there is a nonce, and whether the message has begun. -/
def authenticate (p : Packed) (data : Bytes) :
    Checked (Reply StreamError × Packed) :=
  if p.nonceLength = 0 then return (⟨.error (.nonceLength 0), []⟩, p)
  else if !p.message.isEmpty then return (⟨.error .aadAfterMessage, []⟩, p)
  else do
    let aad ← append p.aad data
    return (⟨.ok (), []⟩, { p with aad })

/-- Whether there is room in the message for so many bytes more. A sum
that no word holds is no room either. -/
def hasRoom (p : Packed) (additional : Nat) : Checked Bool := do
  let limit ← p.maxMessageLength
  return (sumWithin? limit p.message.length additional).isSome

/-- **Transforms a buffer in place**, and keeps its plaintext side. The
plaintext is appended before the transform when it is what goes in, and
after it when it is what comes out. -/
def transform (p : Packed) (direction : Direction) (buffer : Bytes) :
    Checked (Reply StreamError × Packed) :=
  if p.nonceLength = 0 then return (⟨.error (.nonceLength 0), buffer⟩, p)
  else do
    if ← p.hasRoom buffer.length then
      match direction with
      | .encrypt => do
        let message ← append p.message buffer
        let (result, p) ← applyKeystream { p with message } buffer [] 0
        return (⟨.ok (), result⟩, p)
      | .decrypt => do
        let (result, p) ← p.applyKeystream buffer [] 0
        let message ← append p.message result
        return (⟨.ok (), result⟩, { p with message })
    else return (⟨.error .messageTooLong, buffer⟩, p)

/-- **The length that precedes associated data**, written at the start
of ten bytes, and how many of them it takes. The three forms are those
of the format, each written over the start of zeros. -/
def encodeAadLength (length : Nat) : Checked (Bytes × Nat) :=
  let header := Bytes.zeros 10
  if length < 0xFF00 then do
    return (← put header 0 2 (Bytes.bigEndian 2 length), 2)
  else if length ≤ 0xFFFFFFFF then do
    let header ← put header 0 2 [0xFF, 0xFE]
    return (← put header 2 6 (Bytes.bigEndian 4 length), 6)
  else do
    let header ← put header 0 2 [0xFF, 0xFF]
    return (← put header 2 10 (Bytes.bigEndian 8 length), 10)

/-- **The chain with the associated data taken in**, if there is any.
The length in front of it is taken in by a call of its own. -/
def macAad (p : Packed) (mac : CbcMac.Packed) : Checked CbcMac.Packed :=
  if p.aad.isEmpty then return mac
  else do
    let (header, length) ← encodeAadLength p.aad.length
    let mac ← mac.update p.cipher (← slice header 0 length)
    let mac ← mac.update p.cipher p.aad.toList
    mac.pad p.cipher

/-- **The chain over the message**, which runs in a range. Opening
block, associated data and message are taken in, in this order, and the
last block is closed. -/
def mac (p : Packed) (opening state : Bytes) : Checked CbcMac.Packed := do
  let mac ← (CbcMac.Packed.start state).update p.cipher opening
  let mac ← p.macAad mac
  let mac ← mac.update p.cipher p.message.toList
  mac.pad p.cipher

/-- **Writes the tag over a buffer.** The flags are put together by
bits, the mask is counter block zero, and the range of the chain is
written back to the row. -/
def tag (p : Packed) (buffer : Bytes) : Checked (Reply StreamError × Packed) :=
  if p.nonceLength = 0 then return (⟨.error (.nonceLength 0), buffer⟩, p)
  else if buffer.length ≠ p.tagLength then
    return (⟨.error (.tagLength buffer.length), buffer⟩, p)
  else do
    let width ← p.lengthWidth
    let aadFlag : UInt8 := if p.aad.isEmpty then 0 else 0x40
    let tagFlag := UInt8.ofNat ((← sub p.tagLength 2) / 2) <<< 3
    let widthFlag := UInt8.ofNat (← sub width 1)
    let opening ← p.formatBlock (aadFlag ||| tagFlag ||| widthFlag)
      p.message.length
    let mask ← p.formatBlock widthFlag 0
    let mask ← encrypt p.cipher mask
    let mac ← p.mac opening (← slice p.row macAt nonceAt)
    let row ← put p.row macAt nonceAt mac.state
    let full := List.zipWith (· ^^^ ·) mac.state mask
    return (⟨.ok (), Bytes.overwrite full buffer⟩, { p with row })

end Packed

end Aead.Ccm

end Strongbox
