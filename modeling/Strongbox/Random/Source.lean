import Strongbox.Random.Hardware
import Strongbox.Random.Host

/-!
# Sources of entropy

A source of entropy is asked to fill a destination. It writes some bytes
over the start of it – all of it, if it keeps its word – and then says
whether it delivered. A source may behave differently each time: what it
does is a function of how often it has been called before, of the length
it is asked for, and of the host. It does not see what the destination
held.

Besides the kernel and the two instructions of the processor there are
sources for trying things out: a `Behaviour` is a fixed way to succeed
or to fail, and a script says what to do call by call.

## What a source may do

A source is not trusted. It may write less than it was asked for and
claim success, or write and then fail; the definition allows both, and
what a cascade makes of it is proved for all sources, or for those that
are known to keep their word. What it cannot do is write beyond the
destination, read what was there before, or change another source.

The count of its calls is kept with the source. It is how a source can
behave differently from call to call, and how a test can tell that it
was asked.
-/

namespace Strongbox.Random

/-- **What a source does when it is called.** What is not reached by
`write` stays as it was. -/
structure Play where
  /-- What it writes over the start of the destination. -/
  write : Bytes
  /-- Whether it delivered. -/
  outcome : Except EntropyError Unit

/-- A play that fails without writing. The sources that fail by
themselves leave the destination alone. -/
def Play.failure (e : EntropyError) : Play := ⟨[], .error e⟩

/-- **A source of entropy.** The count goes up with every call, also
with one that fails. -/
structure Source where
  /-- Its name. -/
  name : String
  /-- How often it has been called. -/
  calls : Nat
  /-- What it does at the call of a number, asked for a length. -/
  play : (call length : Nat) → Host → Play × Host

namespace Source

/-- **Calls a source on a destination**: how it ended, what the
destination holds afterwards, the source with the call counted, and the
host. What is written past the end of the destination is dropped. -/
def fill (s : Source) (dest : Bytes) (h : Host) :
    Except EntropyError Unit × Bytes × Source × Host :=
  let (play, h) := s.play s.calls dest.length h
  (play.outcome, Bytes.overwrite play.write dest,
    { s with calls := s.calls + 1 }, h)

/-- Reading the kernel, as a play. The kernel does not care how often it
has been asked. -/
def kernelPlay (length : Nat) (h : Host) : Play × Host :=
  match h.readKernel length with
  | (.ok bytes, h) => (⟨bytes, .ok ()⟩, h)
  | (.error e, h) => (Play.failure e, h)

/-- **The kernel.** It is the last source of a machine, and the only one
that delivers here. -/
def kernel : Source := ⟨"kernel", 0, fun _ => kernelPlay⟩

/-- An instruction of the processor, which is not there. It fails at
once, every time, and asks nothing of the host. -/
def missingInstruction (name : String) : Source :=
  ⟨name, 0, fun _ _ h => (Play.failure .hardwareUnsupported, h)⟩

/-- The processor's instruction for seeds. It is asked first. -/
def rdseed : Source := missingInstruction "rdseed"

/-- The processor's instruction for random numbers. It is asked when the
one for seeds has not delivered. -/
def rdrand : Source := missingInstruction "rdrand"

end Source

/-- **A fixed way for a source to behave.** These four are enough to try
a cascade out. -/
inductive Behaviour where
  /-- Pass everything on to the kernel. -/
  | passThrough
  /-- Fail every time. -/
  | fail
  /-- Fail the call of this number, counted from one, and pass the
  others on to the kernel. -/
  | failAt (call : Nat)
  /-- Write the same byte everywhere. -/
  | fixed (value : UInt8)
  deriving DecidableEq, Repr

/-- What a source of a fixed behaviour does. The call is counted from
zero by the source, and from one by the behaviour that fails once. -/
def Behaviour.play (b : Behaviour) (call length : Nat) (h : Host) :
    Play × Host :=
  match b with
  | passThrough => Source.kernelPlay length h
  | fail => (Play.failure .unavailable, h)
  | failAt n =>
    if call + 1 = n then (Play.failure .unavailable, h)
    else Source.kernelPlay length h
  | fixed value => (⟨List.replicate length value, .ok ()⟩, h)

namespace Source

/-- A source of a fixed behaviour. It has not been called yet. -/
def ofBehaviour (name : String) (b : Behaviour) : Source := ⟨name, 0, b.play⟩

/-- The name of a source of a fixed behaviour that is given no other.
Several sources may have it. -/
def defaultName : String := "mock"

/-- The source with another behaviour from now on; its calls stay
counted. The name stays too. -/
def behave (s : Source) (b : Behaviour) : Source := { s with play := b.play }

/-- The source with its calls counted from zero again. A behaviour that
fails at a call will fail at it again. -/
def forgetCalls (s : Source) : Source := { s with calls := 0 }

/-- **A source that follows a script**, call by call; the last play is
repeated. An empty script writes nothing and succeeds. It does not look
at the length it is asked for, so that it may write too little. -/
def ofScript (name : String) (plays : List Play) : Source :=
  ⟨name, 0, fun call _ h =>
    (plays.getD (min call (plays.length - 1)) ⟨[], .ok ()⟩, h)⟩

end Source

end Strongbox.Random
