import Strongbox.Bytes

/-!
# What can be refused

Authenticated encryption happens on two levels. A **stream** is one mode
of operation at work on one message after another; it knows nothing of
when a call makes sense beyond what its own arithmetic needs. A
**session** wraps a stream in a protocol. Each level has its own list of
refusals, as causes; the texts in which they are reported stand here and
nowhere else.

## Two lists

The lists have names in common and are not the same. A key that is too
short is refused by a session before there is a stream, and by a stream
that is made without a session; a tag length is refused by both, each
for its own reason; associated data that comes too late is refused by a
session because a transform has been made, and by a stream because its
hash has moved on. What only a stream can know – that a length limit
would be passed, that a nonce is of no use – a session hands on as the
`cause` of a refusal of its own, together with the name of the
operation.

## Buffers

Most calls are handed memory of the caller, and what is left in it is
part of the answer: a refused transform must not leave half a plaintext
there, and a refused tag nothing that might pass for one. So `Reply`
carries the buffer beside the outcome, for every call and every refusal.
-/

namespace Strongbox.Aead

/-- **The modes of operation.** They have the same calls and differ in
nearly everything behind them. -/
inductive Mode where
  /-- Galois/counter mode, NIST SP 800-38D. -/
  | gcm
  /-- Counter with CBC-MAC, NIST SP 800-38C. -/
  | ccm
  deriving DecidableEq, Repr

/-- The name of a mode. It is the end of the name of the algorithm. -/
def Mode.name : Mode → String
  | gcm => "GCM"
  | ccm => "CCM"

/-- Which way a message is transformed. Both run the same keystream;
which side of a piece is the ciphertext is what the direction tells. -/
inductive Direction where
  /-- From plaintext to ciphertext. -/
  | encrypt
  /-- From ciphertext to plaintext. -/
  | decrypt
  deriving DecidableEq, Repr

/-- The name under which a failing transform is reported. It is the
operation in the texts of a session. -/
def Direction.name : Direction → String
  | encrypt => "encrypt"
  | decrypt => "decrypt"

/-- **Why a stream refuses a call.** Each cause names what was wrong
with the call, with the length where a length was. -/
inductive StreamError where
  /-- The key has none of the three lengths of the cipher. -/
  | keyLength (length : Nat)
  /-- The mode takes no nonce of this length. -/
  | nonceLength (length : Nat)
  /-- The mode makes no tag of this length. -/
  | tagLength (length : Nat)
  /-- The message would exceed the mode's limit. -/
  | messageTooLong
  /-- The associated data would exceed the mode's limit. -/
  | aadTooLong
  /-- Associated data came after the message had begun. -/
  | aadAfterMessage
  deriving DecidableEq, Repr

/-- The text of a stream's refusal. It stands at the end of a session's
text when the session hands the refusal on. -/
def StreamError.message : StreamError → String
  | keyLength n => s!"invalid key length: {n} bytes"
  | nonceLength n => s!"invalid nonce length: {n} bytes"
  | tagLength n => s!"invalid tag length: {n} bytes"
  | messageTooLong => "message exceeds the mode's length limit"
  | aadTooLong => "associated data exceeds the mode's length limit"
  | aadAfterMessage => "associated data supplied after the message"

/-- **Why a session refuses a call.** Some have to do with the order of
calls, some with their arguments, and two hand on what the stream said. -/
inductive Error where
  /-- The key has none of the three lengths of the cipher. -/
  | keyLength (length : Nat)
  /-- The session makes no tag of this length. -/
  | tagLength (length : Nat)
  /-- There is nothing to transform. -/
  | emptyInput
  /-- The output has no room for the input. -/
  | insufficientCapacity (length capacity : Nat)
  /-- The mode does not have the operation. -/
  | unsupported (operation : String) (mode : Mode)
  /-- No message has been started. -/
  | notReset
  /-- Associated data came after the first transform. -/
  | aadAfterMessage
  /-- A transform came after the tag. -/
  | tagExtracted
  /-- An earlier failure has ended the message. -/
  | faulted
  /-- The stream could not be set up. -/
  | initialization (operation : String) (cause : StreamError)
  /-- The stream refused the call. -/
  | stream (operation : String) (cause : StreamError)
  /-- The tag is not the message's. -/
  | authenticationFailed
  deriving DecidableEq, Repr

namespace Error

/-- The text of a session's refusal. Each text is told by the cause
alone, so that no text says more than the cause does. -/
def message : Error → String
  | keyLength n => s!"invalid key length: {n} bytes (expected 16, 24 or 32)"
  | tagLength n => s!"invalid tag length: {n} bytes"
  | emptyInput => "empty input"
  | insufficientCapacity length capacity =>
    s!"output capacity {capacity} is smaller than input length {length}"
  | unsupported operation mode =>
    operation ++ " is not supported in " ++ mode.name ++ " mode"
  | notReset => "session used before reset"
  | aadAfterMessage => "associated data supplied after the first transform"
  | tagExtracted => "transform after the tag was extracted; reset first"
  | faulted => "session faulted; reset first"
  | initialization operation cause =>
    operation ++ " failed during initialization: " ++ cause.message
  | stream operation cause => operation ++ " failed: " ++ cause.message
  | authenticationFailed => "authentication failed: tag mismatch"

/-- The refusal of the stream beneath, where there is one. What a
session refuses by itself has no such cause. -/
def cause? : Error → Option StreamError
  | initialization _ cause | stream _ cause => some cause
  | _ => none

end Error

/-- **The answer to a call that is handed a buffer**: how it ended, and
what the buffer holds afterwards – also when it was refused. Calls
without a buffer leave the empty one. A refusal is compared with its
buffer, so that two machines that answer alike also leave the same bytes
behind. -/
structure Reply (ε : Type) where
  /-- Success, or the refusal. -/
  outcome : Except ε Unit
  /-- The buffer afterwards. -/
  buffer : Bytes

end Strongbox.Aead
