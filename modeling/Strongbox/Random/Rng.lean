import Strongbox.Random.Cascade
import Strongbox.Random.Drbg

/-!
# A generator with its sources

An `Rng` is a deterministic generator together with the cascade that
feeds it. It is made from two draws of the cascade: the first becomes
the seed, the second is taken in under a label of its own. Later, a
caller's material and further draws are taken in under two other labels,
so that no material of a caller can stand in for a draw.

Every draw is of 64 bytes. The two draws at the beginning go into one
destination, one after the other.

## Three labels

The labels differ soon after their common beginning, and none of them is
the beginning of another, so that no two kinds of material can be taken
for each other however long they are. A client that gets hold of the
generator itself can reseed it under a label of its own; this is the one
way to bring in material that the labels do not cover.

## Who draws

A draw is made when the generator is made, twice, and when a client asks
for a new seed. Nothing else asks the sources: words and bytes come from
the generator alone, and material of a caller is taken in without a
draw. So the number of draws can be counted from the calls, and the
outside is asked as often as the calls say.
-/

namespace Strongbox.Random

/-- **A generator and the sources that feed it.** Neither knows of the
other: what passes between them is bytes. -/
structure Rng where
  /-- The generator. -/
  drbg : Drbg
  /-- The sources. -/
  cascade : Cascade

namespace Rng

/-- The bits of a draw. The strength of what is drawn is bounded by it,
whatever the sources are. -/
def maxSeedBits : Nat := 512

/-- The bytes of a draw: 64 of them, as many as the constant seed has.
All draws of a generator have this length. -/
def seedLength : Nat := maxSeedBits / 8

/-- The label of the second draw. It is used once in the life of a
generator. -/
def augmentLabel : Bytes := Bytes.ascii "bastion-rand augment"

/-- The label of a caller's material. It stands for whatever a caller
has given, as a whole. -/
def callerLabel : Bytes := Bytes.ascii "bastion-rand caller seed"

/-- The label of every further draw. The origin of the draw is reported
and not hashed. -/
def cascadeLabel : Bytes := Bytes.ascii "bastion-rand chain seed"

/-- **A generator over a cascade.** The second draw finds the bytes of
the first one in its destination, which a source that keeps its word
writes over. -/
def ofCascade (cascade : Cascade) (h : Host) : Rng × Host :=
  let first := cascade.draw (Bytes.zeros seedLength) h
  let second := first.sources.draw first.bytes first.host
  ({ drbg := (Drbg.ofSeed first.bytes).reseed augmentLabel second.bytes
     cascade := second.sources }, second.host)

/-- A generator over the sources of the machine. It is what a process
gets that has configured nothing. -/
def ofSystem (h : Host) : Rng × Host := ofCascade Cascade.system h

/-- **Takes in material of the caller**, of which there must be some.
The key that was there is hashed with the material, so that bad material
does no harm. -/
def seed (r : Rng) (material : Bytes) : Except RequestError Rng :=
  if material.isEmpty then .error .emptySeed
  else .ok { r with drbg := r.drbg.reseed callerLabel material }

/-- **Takes in a new draw**, and says where it came from. The
destination is zeros, unlike that of the second draw of all. -/
def randomSeed (r : Rng) (h : Host) : Origin × Rng × Host :=
  let drawn := r.cascade.draw (Bytes.zeros seedLength) h
  (drawn.origin,
    { drbg := r.drbg.reseed cascadeLabel drawn.bytes,
      cascade := drawn.sources },
    drawn.host)

/-- **A number of random bytes**, at least one. A request for none is
refused, and nothing is drawn. -/
def bytes (r : Rng) (n : Nat) : Except RequestError (Bytes × Rng) :=
  if n = 0 then .error .emptyRequest
  else .ok ((r.drbg.fill n).1, { r with drbg := (r.drbg.fill n).2 })

/-- How a generator shows itself: the names of its sources. The state of
the generator is not shown, and the names are quoted. -/
def describe (r : Rng) : String :=
  "RandomEngine \x7b generator: " ++ Drbg.description ++ ", chain: "
    ++ r.cascade.describe ++ " \x7d"

/-! ## Histories -/

/-- **A call to a generator with its sources.** The calls to the
generator itself are among them, since a client may hold it. -/
inductive Call where
  /-- Material of the caller. -/
  | seed (material : Bytes)
  /-- A new draw. -/
  | randomSeed
  /-- A number of bytes. -/
  | bytes (n : Nat)
  /-- A call to the generator itself. -/
  | generator (call : Drbg.Call)
  /-- Its description. -/
  | describe
  deriving DecidableEq, Repr

/-- A random word. It is a call to the generator itself. -/
def Call.word : Call := .generator .word

/-- A random 64-bit word. It is one call, and takes two words. -/
def Call.wide : Call := .generator .wide

/-- **What a generator with its sources answers.** A call that can be
refused answers with the bytes or with the refusal. -/
inductive Reply where
  /-- What the generator itself answers. -/
  | generator (reply : Drbg.Reply)
  /-- Where a draw came from. -/
  | origin (origin : Origin)
  /-- A refusal. -/
  | refused (e : RequestError)
  deriving DecidableEq, Repr

/-- **How many random bytes a call asks for.** The other calls ask for
none. -/
def Call.size : Call → Nat
  | bytes n => n
  | generator call => call.size
  | seed _ | randomSeed | describe => 0

/-- **The random bytes in an answer.** Only the generator gives any. -/
def Reply.output : Reply → Bytes
  | generator reply => reply.output
  | origin _ | refused _ => []

/-- **Answers one call.** A refused call leaves the generator and the
host as they were. -/
def step (r : Rng) (h : Host) : Call → Reply × Rng × Host
  | .seed material =>
    match r.seed material with
    | .ok r => (.generator .done, r, h)
    | .error e => (.refused e, r, h)
  | .randomSeed =>
    let (origin, r, h) := r.randomSeed h
    (.origin origin, r, h)
  | .bytes n =>
    match r.bytes n with
    | .ok (value, r) => (.generator (.bytes value), r, h)
    | .error e => (.refused e, r, h)
  | .generator call =>
    let (reply, drbg) := r.drbg.step call
    (.generator reply, { r with drbg }, h)
  | .describe => (.generator (.text r.describe), r, h)

/-- **Answers a history of calls**, and gives the generator and the host
after it. The host is handed on from call to call. -/
def run (r : Rng) (h : Host) : List Call → List Reply × Rng × Host
  | [] => ([], r, h)
  | call :: calls =>
    let (reply, r, h) := r.step h call
    let (replies, r, h) := run r h calls
    (reply :: replies, r, h)

end Rng

end Strongbox.Random
