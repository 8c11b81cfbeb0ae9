import Strongbox.Aead.Stream

/-!
# Sessions

A session puts a stream under a protocol. A message is begun by a reset,
which takes the nonce; associated data comes before the first transform;
transforms come before the tag; and the tag, once asked for, may be
asked for again until the next reset. In counter with CBC-MAC mode all
associated data is given with the reset.

## Phases

Where a session stands in that order is its `Phase`. A reset that fails,
or a transform that the stream refuses, leaves it in `faulted`, from
which only a successful reset leads out: what has been handed out of
such a message must not be followed by more under the same nonce. A call
that comes at the wrong time, or with arguments that cannot be meant,
changes nothing.

A reset may be made at any time, and abandons the message under way.

## Buffers

Transforms and tags write into buffers of the caller. Each answer
carries the buffer as it stands afterwards, also when the call was
refused: a refused tag leaves zeros, a transform from one buffer to
another that the stream refuses leaves the input copied.
-/

namespace Strongbox.Aead

/-- **Where a session stands.** Five are enough: what a call may do
depends on the past through these alone. -/
inductive Phase where
  /-- No message has been begun. -/
  | constructed
  /-- A message has been begun, nothing transformed. -/
  | reset
  /-- Some of the message has been transformed. -/
  | transforming
  /-- The tag has been asked for. -/
  | tagExtracted
  /-- The message failed. -/
  | faulted
  deriving DecidableEq, Repr

/-- The name of a phase. It is shown with the session. -/
def Phase.name : Phase → String
  | constructed => "Constructed"
  | reset => "Reset"
  | transforming => "Transforming"
  | tagExtracted => "TagExtracted"
  | faulted => "Faulted"

/-- **A stream under the protocol.** The protocol is in the phase and
the bytes are in the stream; a theorem about one of them need not speak
of the other. -/
structure Session where
  /-- The stream. -/
  stream : Stream
  /-- Where the session stands. -/
  phase : Phase

namespace Session

/-- The tag length of a session for which none is asked. It is a tag
length of both modes. -/
def defaultTagLength : Nat := 16

/-- **A session under a key.** The key is looked at first. The tag
length counts in counter with CBC-MAC mode only. A refusal of the stream
that has to do with the tag length is the session's own; any other one
is handed on. -/
def ofKey (mode : Mode) (key : Bytes) (tagLength : Nat) :
    Except Error Session :=
  match Aes.KeySize.ofLength? key.length with
  | none => .error (.keyLength key.length)
  | some _ =>
    match Stream.ofKey mode key tagLength with
    | .ok stream => .ok { stream, phase := .constructed }
    | .error (.tagLength n) => .error (.tagLength n)
    | .error cause => .error (.initialization "new" cause)

/-- The mode of a session. It decides which calls there are. -/
def mode (s : Session) : Mode := s.stream.mode

/-- The name of the algorithm of a session. It is that of the stream. -/
def algorithm (s : Session) : String := s.stream.algorithm

/-- The tag length of a session: the fixed one where the mode fixes one,
and else the longest. It is what the session shows, and in
Galois/counter mode no more than that. -/
def tagLength (s : Session) : Nat := s.stream.tagLength?.getD Gcm.maxTagLength

/-- Whether a tag of this length may be asked for. In Galois/counter
mode every tag may have its own length, and in the other one there is
one length for all of them. -/
def takesTagLength (s : Session) (length : Nat) : Bool :=
  match s.mode with
  | .gcm => 1 ≤ length && length ≤ Gcm.maxTagLength
  | .ccm => length == s.tagLength

/-- How a session shows itself, without anything secret. Key, nonce and
everything that has gone through it are left out, which the two dots
stand for. -/
def describe (s : Session) : String :=
  "AeadCipher \x7b algorithm: \"" ++ s.algorithm ++ "\", tag_len: "
    ++ toString s.tagLength ++ ", phase: " ++ s.phase.name ++ ", .. \x7d"

/-! ## Beginning a message -/

/-- The stream with a message begun, and with the associated data that
comes with the nonce. In counter with CBC-MAC mode the associated data
is handed on even if it is empty; in the other mode an empty one is not. -/
def startMessage (stream : Stream) (nonce aad : Bytes) :
    Except StreamError Stream := do
  let stream ← stream.reset nonce
  if stream.mode = .ccm ∨ !aad.isEmpty then stream.authenticate aad
  else return stream

/-- **Begins a message**, in any phase. The stream of a failed reset is
the one before it: the phase alone keeps it from being used. -/
def reset (s : Session) (nonce aad : Bytes) : Except Error Unit × Session :=
  match startMessage s.stream nonce aad with
  | .ok stream => (.ok (), { stream, phase := .reset })
  | .error cause =>
    (.error (.initialization "reset" cause), { s with phase := .faulted })

/-- **Takes in more associated data**, between the reset and the first
transform. Nothing is a piece of associated data that is always taken.
The mode is looked at first and then the phase, so that in counter with
CBC-MAC mode the answer is the same in every phase. -/
def authenticate (s : Session) (data : Bytes) : Except Error Unit × Session :=
  if s.mode = .ccm then (.error (.unsupported "aad" .ccm), s)
  else
    match s.phase with
    | .constructed => (.error .notReset, s)
    | .faulted => (.error .faulted, s)
    | .transforming | .tagExtracted => (.error .aadAfterMessage, s)
    | .reset =>
      if data.isEmpty then (.ok (), s)
      else
        match s.stream.authenticate data with
        | .ok stream => (.ok (), { s with stream })
        | .error cause => (.error (.stream "aad" cause), s)

/-! ## Transforming it -/

/-- What a transform of `length` bytes into a buffer of `capacity` bytes
is refused for before it reaches the stream. The phase is looked at
before the lengths. -/
def objection? (s : Session) (length capacity : Nat) : Option Error :=
  match s.phase with
  | .constructed => some .notReset
  | .faulted => some .faulted
  | .tagExtracted => some .tagExtracted
  | .reset | .transforming =>
    if length = 0 then some .emptyInput
    else if capacity < length then some (.insufficientCapacity length capacity)
    else none

/-- Hands the stream a piece that stands at the start of a buffer, in
front of `rest`. The answer carries the whole buffer, in which a refusal
leaves the piece as it was. Both forms of a transform end here, and so
does everything that is proved of the two together. -/
def transformStart (s : Session) (direction : Direction) (piece rest : Bytes) :
    Reply Error × Session :=
  match s.stream.transform direction piece with
  | .ok (result, stream) =>
    (⟨.ok (), result ++ rest⟩, { stream, phase := .transforming })
  | .error cause =>
    (⟨.error (.stream direction.name cause), piece ++ rest⟩,
      { s with phase := .faulted })

/-- **Transforms an input into the start of an output**, whose bytes
beyond the input's length stay. The input is copied first, and a refusal
of the stream finds it there. -/
def transform (s : Session) (direction : Direction) (input output : Bytes) :
    Reply Error × Session :=
  match s.objection? input.length output.length with
  | some e => (⟨.error e, output⟩, s)
  | none => s.transformStart direction input (output.drop input.length)

/-- **Transforms the first `length` bytes of a buffer in place.** The
bytes beyond them stay as they are. -/
def transformInPlace (s : Session) (direction : Direction) (buffer : Bytes)
    (length : Nat) : Reply Error × Session :=
  match s.objection? length buffer.length with
  | some e => (⟨.error e, buffer⟩, s)
  | none => s.transformStart direction (buffer.take length) (buffer.drop length)

/-! ## Closing it -/

/-- **Writes the tag over a buffer**, as long as the buffer. The buffer
is zeroed first and stays so if no tag is written. The length is looked
at before the stream is asked, and a length that is refused does not
fail the message. -/
def tag (s : Session) (length : Nat) : Reply Error × Session :=
  let blank := Bytes.zeros length
  match s.phase with
  | .constructed => (⟨.error .notReset, blank⟩, s)
  | .faulted => (⟨.error .faulted, blank⟩, s)
  | .reset | .transforming | .tagExtracted =>
    if !s.takesTagLength length then (⟨.error (.tagLength length), blank⟩, s)
    else
      match s.stream.tag length with
      | .ok tag => (⟨.ok (), tag⟩, { s with phase := .tagExtracted })
      | .error cause =>
        (⟨.error (.stream "auth_tag" cause), blank⟩,
          { s with phase := .faulted })

/-- **Compares the tag with an expected one** of the same length. A
mismatch counts as a tag asked for. No other buffer is touched, and a
comparison that fails says no more than that it has failed. -/
def verify (s : Session) (expected : Bytes) : Except Error Unit × Session :=
  let (reply, s) := s.tag expected.length
  match reply.outcome with
  | .error e => (.error e, s)
  | .ok () =>
    if reply.buffer = expected then (.ok (), s)
    else (.error .authenticationFailed, s)

/-! ## Histories -/

/-- **A call to a session**, with the buffers it is handed. There is one
constructor for each method that may change a session. -/
inductive Call where
  /-- Begin a message. -/
  | reset (nonce aad : Bytes)
  /-- Take in more associated data. -/
  | authenticate (data : Bytes)
  /-- Transform an input into an output. -/
  | transform (direction : Direction) (input output : Bytes)
  /-- Transform the start of a buffer in place. -/
  | transformInPlace (direction : Direction) (buffer : Bytes) (length : Nat)
  /-- Write the tag over a buffer. -/
  | tag (buffer : Bytes)
  /-- Compare the tag with an expected one. -/
  | verify (expected : Bytes)
  deriving DecidableEq, Repr

/-- **Answers one call.** Calls that are handed no buffer leave the
empty one. -/
def step (s : Session) (call : Call) : Reply Error × Session :=
  match call with
  | .reset nonce aad =>
    let (outcome, s) := s.reset nonce aad
    (⟨outcome, []⟩, s)
  | .authenticate data =>
    let (outcome, s) := s.authenticate data
    (⟨outcome, []⟩, s)
  | .transform direction input output => s.transform direction input output
  | .transformInPlace direction buffer length =>
    s.transformInPlace direction buffer length
  | .tag buffer => s.tag buffer.length
  | .verify expected =>
    let (outcome, s) := s.verify expected
    (⟨outcome, []⟩, s)

/-- **Answers a history of calls**, and gives the session after it. It
is the recursion that every statement about histories goes by. -/
def run (s : Session) : List Call → List (Reply Error) × Session
  | [] => ([], s)
  | call :: calls =>
    let (reply, s) := s.step call
    let (replies, s) := run s calls
    (reply :: replies, s)

end Session

end Strongbox.Aead
