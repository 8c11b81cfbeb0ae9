import Strongbox.Aead.Ccm.Packed
import Strongbox.Aead.Gcm.Packed
import Strongbox.Aead.Session

/-!
# Streams and sessions as they lie in memory

`Packed` is a stream of one mode or the other that keeps its working
state in a row of bytes, and `PackedSession` a session over it. They
have the calls of a `Stream` and of a `Session`, but hand the buffers of
the caller on by ranges, and each call is `Checked`.

## Why there are two of each

A `Stream` says what is computed, and cannot go wrong. A `Packed` stream
says how: by which ranges of which row, with which sums of machine
words, in which order. The two are written apart. That the second one
never comes to a fault, and answers as the first one does, is what has
to be proved; nothing of it holds by definition.

The phases and the refusals of a session appear a second time for the
same reason. They are decided from fields of the packed session, among
them its own copies of the mode and of the tag length, and not from the
stream.

## What a refusal leaves

A refusal may leave more behind here than it does in a `Session`: a
reset whose associated data is refused has begun a message all the same.
Nothing of it can be seen, since the session has faulted and waits for
another reset.
-/

namespace Strongbox.Aead

open Checked

/-- **A stream as it lies in memory.** The mode is the constructor, and
the rest is the row and the counts of that mode. -/
inductive Packed where
  /-- In Galois/counter mode. -/
  | gcm (stream : Gcm.Packed)
  /-- In counter with CBC-MAC mode. -/
  | ccm (stream : Ccm.Packed)

namespace Packed

/-- **A stream under an AES key.** The tag length is looked at before
the key. The hash key of a stream in Galois/counter mode is encrypted
here, which is a computation on a row and `Checked` like any other. -/
def ofKey (mode : Mode) (key : Bytes) (tagLength : Nat) :
    Checked (Except StreamError Packed) :=
  if !Stream.acceptsTagLength mode tagLength then
    return .error (.tagLength tagLength)
  else
    match Aes.blockCipher? key with
    | none => return .error (.keyLength key.length)
    | some cipher =>
      match mode with
      | .gcm => do return .ok (gcm (← Gcm.Packed.ofCipher cipher))
      | .ccm => return .ok (ccm (Ccm.Packed.ofCipher cipher tagLength))

/-- The mode of a stream. It is what a reset looks at to know whether
associated data is owed. -/
def mode : Packed → Mode
  | gcm _ => .gcm
  | ccm _ => .ccm

/-- An answer of one mode as an answer of a stream. The fault of a
computation, if there is one, is passed on as it is. -/
def answered {σ : Type} (wrap : σ → Packed)
    (answer : Checked (Reply StreamError × σ)) :
    Checked (Reply StreamError × Packed) :=
  answer.map fun (reply, p) => (reply, wrap p)

/-- **Answers one call.** There are eight cases, each of which does no
more than hand the call to its mode. -/
def step (p : Packed) (call : Stream.Call) :
    Checked (Reply StreamError × Packed) :=
  match p, call with
  | gcm p, .reset nonce => answered gcm (p.reset nonce)
  | gcm p, .authenticate data => answered gcm (p.authenticate data)
  | gcm p, .transform direction buffer =>
    answered gcm (p.transform direction buffer)
  | gcm p, .tag buffer => answered gcm (p.tag buffer)
  | ccm p, .reset nonce => answered ccm (p.reset nonce)
  | ccm p, .authenticate data => answered ccm (p.authenticate data)
  | ccm p, .transform direction buffer =>
    answered ccm (p.transform direction buffer)
  | ccm p, .tag buffer => answered ccm (p.tag buffer)

/-- **Answers a history of calls**, and gives the stream after it. The
first fault ends the history, so that a history with a value is one in
which no call has come to a fault. -/
def run (p : Packed) :
    List Stream.Call → Checked (List (Reply StreamError) × Packed)
  | [] => return ([], p)
  | call :: calls => do
    let (reply, p) ← p.step call
    let (replies, p) ← run p calls
    return (reply :: replies, p)

end Packed

/-- **A session over a stream as it lies in memory.** The mode and the
tag length are kept beside the stream, as they are asked for without it. -/
structure PackedSession where
  /-- The mode of the session. -/
  mode : Mode
  /-- The tag length of the session. -/
  tagLength : Nat
  /-- The stream. -/
  stream : Packed
  /-- Where the session stands. -/
  phase : Phase

namespace PackedSession

/-- **A session under a key.** The key is looked at first. In
Galois/counter mode the tag length that is kept is the longest one,
whatever was given. -/
def ofKey (mode : Mode) (key : Bytes) (tagLength : Nat) :
    Checked (Except Error PackedSession) :=
  match Aes.KeySize.ofLength? key.length with
  | none => return .error (.keyLength key.length)
  | some _ => do
    let stream ← Packed.ofKey mode key tagLength
    match stream with
    | .ok stream =>
      let tagLength := match mode with
        | .gcm => Gcm.maxTagLength
        | .ccm => tagLength
      return .ok { mode, tagLength, stream, phase := .constructed }
    | .error (.tagLength n) => return .error (.tagLength n)
    | .error cause => return .error (.initialization "new" cause)

/-- **Begins a message** in the stream, and gives it the associated data
that comes with the nonce. The answer comes with the stream as it stands
then, also when the associated data was refused after the nonce was
taken. -/
def startMessage (stream : Packed) (mode : Mode) (nonce aad : Bytes) :
    Checked (Except StreamError Unit × Packed) := do
  let (reply, stream) ← stream.step (.reset nonce)
  match reply.outcome with
  | .error cause => return (.error cause, stream)
  | .ok () =>
    if mode = .ccm ∨ !aad.isEmpty then do
      let (reply, stream) ← stream.step (.authenticate aad)
      return (reply.outcome, stream)
    else return (.ok (), stream)

/-- **Begins a message**, in any phase. The stream of a failed reset is
kept, with what has happened to it. -/
def reset (s : PackedSession) (nonce aad : Bytes) :
    Checked (Reply Error × PackedSession) := do
  let (outcome, stream) ← startMessage s.stream s.mode nonce aad
  match outcome with
  | .ok () => return (⟨.ok (), []⟩, { s with stream, phase := .reset })
  | .error cause =>
    return (⟨.error (.initialization "reset" cause), []⟩,
      { s with stream, phase := .faulted })

/-- **Takes in more associated data.** The order of the questions is
that of a `Session`, and the stream is kept whatever it answers. -/
def authenticate (s : PackedSession) (data : Bytes) :
    Checked (Reply Error × PackedSession) :=
  if s.mode = .ccm then return (⟨.error (.unsupported "aad" .ccm), []⟩, s)
  else
    match s.phase with
    | .constructed => return (⟨.error .notReset, []⟩, s)
    | .faulted => return (⟨.error .faulted, []⟩, s)
    | .transforming | .tagExtracted => return (⟨.error .aadAfterMessage, []⟩, s)
    | .reset =>
      if data.isEmpty then return (⟨.ok (), []⟩, s)
      else do
        let (reply, stream) ← s.stream.step (.authenticate data)
        match reply.outcome with
        | .ok () => return (⟨.ok (), []⟩, { s with stream })
        | .error cause =>
          return (⟨.error (.stream "aad" cause), []⟩, { s with stream })

/-- What a transform is refused for before it reaches the stream. The
two lengths are those of the input and of the buffer. -/
def objection? (s : PackedSession) (length capacity : Nat) : Option Error :=
  match s.phase with
  | .constructed => some .notReset
  | .faulted => some .faulted
  | .tagExtracted => some .tagExtracted
  | .reset | .transforming =>
    if length = 0 then some .emptyInput
    else if capacity < length then some (.insufficientCapacity length capacity)
    else none

/-- **Transforms the first bytes of a buffer in place**, in the stream.
The range is cut out of the buffer, handed on, and put back over the
place it came from. -/
def transformStart (s : PackedSession) (direction : Direction) (buffer : Bytes)
    (length : Nat) :
    Checked (Reply Error × PackedSession) := do
  let piece ← slice buffer 0 length
  let (reply, stream) ← s.stream.step (.transform direction piece)
  let buffer ← put buffer 0 length reply.buffer
  match reply.outcome with
  | .ok () =>
    return (⟨.ok (), buffer⟩, { s with stream, phase := .transforming })
  | .error cause =>
    return (⟨.error (.stream direction.name cause), buffer⟩,
      { s with stream, phase := .faulted })

/-- **Transforms an input into the start of an output**, into which it
is copied first. Copying is `Checked`, and its range is one of the
output because the lengths have been compared before. -/
def transform (s : PackedSession) (direction : Direction)
    (input output : Bytes) :
    Checked (Reply Error × PackedSession) :=
  match s.objection? input.length output.length with
  | some e => return (⟨.error e, output⟩, s)
  | none => do
    let output ← put output 0 input.length input
    s.transformStart direction output input.length

/-- **Transforms the first `length` bytes of a buffer in place.**
Nothing is copied before the stream gets the range. -/
def transformInPlace (s : PackedSession) (direction : Direction)
    (buffer : Bytes) (length : Nat) :
    Checked (Reply Error × PackedSession) :=
  match s.objection? length buffer.length with
  | some e => return (⟨.error e, buffer⟩, s)
  | none => s.transformStart direction buffer length

/-- Whether a tag of this length may be asked for. It goes by the fields
of the session. -/
def takesTagLength (s : PackedSession) (length : Nat) : Bool :=
  match s.mode with
  | .gcm => 1 ≤ length && length ≤ Gcm.maxTagLength
  | .ccm => length == s.tagLength

/-- **Writes the tag over a buffer**, which is zeroed first and stays so
if no tag is written. If the stream refuses, the buffer it leaves is
zeroed again. -/
def tag (s : PackedSession) (buffer : Bytes) :
    Checked (Reply Error × PackedSession) :=
  let blank := Bytes.zeros buffer.length
  match s.phase with
  | .constructed => return (⟨.error .notReset, blank⟩, s)
  | .faulted => return (⟨.error .faulted, blank⟩, s)
  | .reset | .transforming | .tagExtracted =>
    if !s.takesTagLength blank.length then
      return (⟨.error (.tagLength blank.length), blank⟩, s)
    else do
      let (reply, stream) ← s.stream.step (.tag blank)
      match reply.outcome with
      | .ok () =>
        return (⟨.ok (), reply.buffer⟩,
          { s with stream, phase := .tagExtracted })
      | .error cause =>
        return (⟨.error (.stream "auth_tag" cause),
            Bytes.zeros reply.buffer.length⟩,
          { s with stream, phase := .faulted })

/-- **Compares the tag with an expected one**, in a buffer of its own.
The buffer has as many slots as there are bytes, and is filled with
zeros before the tag is written. -/
def verify (s : PackedSession) (expected : Bytes) :
    Checked (Reply Error × PackedSession) := do
  let computed ← append (Buffer.withCapacity expected.length)
    (Bytes.zeros expected.length)
  let (reply, s) ← s.tag computed.toList
  match reply.outcome with
  | .error e => return (⟨.error e, []⟩, s)
  | .ok () =>
    if reply.buffer = expected then return (⟨.ok (), []⟩, s)
    else return (⟨.error .authenticationFailed, []⟩, s)

/-- **Answers one call.** Each call is handed to the function of its
name. -/
def step (s : PackedSession) (call : Session.Call) :
    Checked (Reply Error × PackedSession) :=
  match call with
  | .reset nonce aad => s.reset nonce aad
  | .authenticate data => s.authenticate data
  | .transform direction input output => s.transform direction input output
  | .transformInPlace direction buffer length =>
    s.transformInPlace direction buffer length
  | .tag buffer => s.tag buffer
  | .verify expected => s.verify expected

/-- **Answers a history of calls**, and gives the session after it. As
for a stream, the first fault ends it. -/
def run (s : PackedSession) :
    List Session.Call → Checked (List (Reply Error) × PackedSession)
  | [] => return ([], s)
  | call :: calls => do
    let (reply, s) ← s.step call
    let (replies, s) ← run s calls
    return (reply :: replies, s)

end PackedSession

end Strongbox.Aead
