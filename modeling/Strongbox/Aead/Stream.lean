import Strongbox.Aead.Ccm
import Strongbox.Aead.Gcm
import Strongbox.Aes

/-!
# Streams

A `Stream` is a mode of operation at work: one of the two, with the
calls they have in common. It does what it is told in any order that its
mode can answer; the protocol around it is the business of a `Session`.

`Stream.step` answers one call together with the buffer that was handed
in, and `Stream.run` a whole history of them. A refused call leaves both
the stream and the buffer as they were.

## What a stream does not know

A stream does not know whether a tag has been asked for, nor that a
message has failed. It has no notion of a message that is over: a
transform may follow a tag, a tag may follow nothing, and what it is of
is what has been taken in until then. The refusals of a stream are those
its arithmetic needs, which are limits on lengths, the order of
associated data and message, and, in one mode, that there is a nonce.

## Two modes, one list of calls

The functions on a `Stream` go to the mode and wrap what it answers.
None of them does anything else, so that a law of both modes is proved
of each and put together by the same two cases. Histories are lists of
`Call`, and `run` is the one recursion over them.
-/

namespace Strongbox.Aead

/-- **A mode of operation at work.** The mode is fixed when the stream
is made. -/
inductive Stream where
  /-- In Galois/counter mode. -/
  | gcm (stream : Gcm)
  /-- In counter with CBC-MAC mode. -/
  | ccm (stream : Ccm)

namespace Stream

/-- A stream under a block cipher, before any nonce. The tag length
counts in counter with CBC-MAC mode only. Nothing is refused here; a key
and a tag length are looked at by `ofKey`. -/
def ofCipher (mode : Mode) (cipher : BlockCipher) (tagLength : Nat) : Stream :=
  match mode with
  | .gcm => gcm (Gcm.ofCipher cipher)
  | .ccm => ccm (Ccm.ofCipher cipher tagLength)

/-- Whether a mode makes tags of this length. In Galois/counter mode the
length is chosen anew for every tag, so that any length will do here. In
the other mode the tag length is part of what is authenticated, and so
it has to be one of the format. -/
def acceptsTagLength (mode : Mode) (tagLength : Nat) : Bool :=
  match mode with
  | .gcm => true
  | .ccm => Ccm.tagLengths.contains tagLength

/-- **A stream under an AES key.** The tag length is looked at before
the key. A key that none of the three sizes has is refused with its
length, and there is no other refusal. -/
def ofKey (mode : Mode) (key : Bytes) (tagLength : Nat) :
    Except StreamError Stream :=
  if !acceptsTagLength mode tagLength then .error (.tagLength tagLength)
  else
    match Aes.blockCipher? key with
    | none => .error (.keyLength key.length)
    | some cipher => .ok (ofCipher mode cipher tagLength)

/-- The mode of a stream. No call changes it. -/
def mode : Stream → Mode
  | gcm _ => .gcm
  | ccm _ => .ccm

/-- The keyed block cipher of a stream. No call changes it either: a
reset takes a nonce and no key. -/
def cipher : Stream → BlockCipher
  | gcm g => g.cipher
  | ccm c => c.cipher

/-- **The name of the algorithm**: cipher, key size and mode. It is the
text that a session shows. -/
def algorithm (s : Stream) : String := s.cipher.name ++ "-" ++ s.mode.name

/-- The tag length fixed when the stream was made, in the mode that
fixes one. In the other mode there is none to tell. -/
def tagLength? : Stream → Option Nat
  | gcm _ => none
  | ccm c => some c.tagLength

/-- The bytes of working state beside what is kept of the message. It is
a number that a stream tells about itself. -/
def stateSize : Stream → Nat
  | gcm _ => Gcm.stateSize
  | ccm _ => Ccm.stateSize

/-- Begins a message under a nonce. Whatever was under way before is
gone, unless the nonce is refused. -/
def reset (s : Stream) (nonce : Bytes) : Except StreamError Stream :=
  match s with
  | gcm g => (g.reset nonce).map gcm
  | ccm c => (c.reset nonce).map ccm

/-- Takes in associated data. When it is too late for it depends on the
mode. -/
def authenticate (s : Stream) (data : Bytes) : Except StreamError Stream :=
  match s with
  | gcm g => (g.authenticate data).map gcm
  | ccm c => (c.authenticate data).map ccm

/-- Transforms the next piece of the message. It answers with the other
side of the piece, which has the same length. -/
def transform (s : Stream) (direction : Direction) (piece : Bytes) :
    Except StreamError (Bytes × Stream) :=
  match s with
  | gcm g => (g.transform direction piece).map fun (result, g) =>
    (result, gcm g)
  | ccm c => (c.transform direction piece).map fun (result, c) =>
    (result, ccm c)

/-- The tag of the message so far. It is a function of the stream, and
the stream goes on unchanged. -/
def tag (s : Stream) (length : Nat) : Except StreamError Bytes :=
  match s with
  | gcm g => g.tag length
  | ccm c => c.tag length

/-- **A call to a stream**, with the buffer it is handed. A transform is
in place, and a tag is as long as the buffer it is written to. -/
inductive Call where
  /-- Begin a message. -/
  | reset (nonce : Bytes)
  /-- Take in associated data. -/
  | authenticate (data : Bytes)
  /-- Transform a buffer in place. -/
  | transform (direction : Direction) (buffer : Bytes)
  /-- Write a tag over a buffer, as long as the buffer. -/
  | tag (buffer : Bytes)
  deriving DecidableEq, Repr

/-- The buffer a call is handed. It is what a refused call gives back. -/
def Call.buffer : Call → Bytes
  | reset _ | authenticate _ => []
  | transform _ buffer | tag buffer => buffer

/-- **Answers one call.** Success gives the new buffer with the new
stream, and a refusal the old ones. -/
def step (s : Stream) (call : Call) : Reply StreamError × Stream :=
  match call with
  | .reset nonce =>
    match s.reset nonce with
    | .ok s => (⟨.ok (), []⟩, s)
    | .error e => (⟨.error e, []⟩, s)
  | .authenticate data =>
    match s.authenticate data with
    | .ok s => (⟨.ok (), []⟩, s)
    | .error e => (⟨.error e, []⟩, s)
  | .transform direction buffer =>
    match s.transform direction buffer with
    | .ok (result, s) => (⟨.ok (), result⟩, s)
    | .error e => (⟨.error e, buffer⟩, s)
  | .tag buffer =>
    match s.tag buffer.length with
    | .ok tag => (⟨.ok (), tag⟩, s)
    | .error e => (⟨.error e, buffer⟩, s)

/-- **Answers a history of calls**, and gives the stream after it. The
answers come in the order of the calls. -/
def run (s : Stream) : List Call → List (Reply StreamError) × Stream
  | [] => ([], s)
  | call :: calls =>
    let (reply, s) := s.step call
    let (replies, s) := run s calls
    (reply :: replies, s)

end Stream

end Strongbox.Aead
