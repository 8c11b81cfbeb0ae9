/-!
# What can be refused

A source of entropy may fail to deliver, and a request for random
numbers may be empty. The first kind of failure is met inside the
library, by going on to the next source; the second is the caller's. The
texts in which both are reported stand here.

## Two kinds of failure

A source that does not deliver says why, and nobody outside the library
ever hears of it: what a draw reports is which source delivered, or that
none did. The causes are there for a source that is asked by itself.

A request that is refused is refused for its arguments alone, before
anything is drawn. Both reasons are the same in kind: a caller that asks
for nothing, or gives nothing, has made a mistake, and an empty key or
an unseeded generator would not tell it so.

The failures of the processor and of the kernel carry what is known of
them, which is the number of attempts and the number of the error.
-/

namespace Strongbox.Random

/-- **Why a read from the kernel failed.** The second one does not occur
where the kernel can be read at all. -/
inductive KernelError where
  /-- The system call failed with an error number. -/
  | os (number : Nat)
  /-- There is no such call on the machine. -/
  | unsupported
  deriving DecidableEq, Repr

/-- The text of a failed read. It stands at the end of the text of a
source that read the kernel. -/
def KernelError.message : KernelError → String
  | os n => s!"OS Error: {n}"
  | unsupported => "getrandom: this target is not supported"

/-- **Why a source of entropy did not deliver.** A source of one's own
may give any of these reasons. -/
inductive EntropyError where
  /-- The machine has no such instruction. -/
  | hardwareUnsupported
  /-- The instruction had nothing to give, time after time. -/
  | hardwareExhausted (attempts : Nat)
  /-- The kernel could not be read. -/
  | kernel (cause : KernelError)
  /-- Any other reason. -/
  | unavailable
  deriving DecidableEq, Repr

/-- The text of a failure to deliver. The cause of a kernel's failure is
told with it. -/
def EntropyError.message : EntropyError → String
  | hardwareUnsupported => "hardware entropy instruction unsupported"
  | hardwareExhausted n => s!"hardware entropy exhausted after {n} attempts"
  | kernel cause => "kernel entropy read failed: " ++ cause.message
  | unavailable => "entropy source unavailable"

/-- **Why a request for random numbers is refused.** There are two
requests that can be refused, each for one reason. -/
inductive RequestError where
  /-- No bytes were asked for. -/
  | emptyRequest
  /-- No seed was given. -/
  | emptySeed
  deriving DecidableEq, Repr

/-- The text of a refused request. These texts are what a caller sees,
and they name the request without anything of its content. -/
def RequestError.message : RequestError → String
  | emptyRequest => "requested zero random bytes"
  | emptySeed => "seed material is empty"

end Strongbox.Random
