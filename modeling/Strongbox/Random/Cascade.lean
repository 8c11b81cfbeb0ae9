import Strongbox.Random.Source
import Strongbox.Text.Quoted

/-!
# Cascades of sources

A cascade asks its sources in order and takes the bytes of the first
that delivers. What a failing source has written is wiped before the
next one is asked. When every source fails, a constant seed takes their
place – a draw never fails, but it says where its bytes came from.

Into the first bytes of every draw a sample of the clock is mixed, so
that two draws differ even where their sources do not.

## The destination

A source is handed the destination as it is. The first one finds what
the caller has put there, and each later one finds zeros, since what a
failing source has written is wiped. What the first source finds matters
only if it claims success without having written everything; of sources
that keep their word, a draw is the same for every destination of the
same length.

## The clock

The sample is taken after the sources have been asked, once for every
draw, and mixed into the first eight bytes whether they came from a
source or from the constant seed. It is added and not put in place of
what is there, so that nothing a source has delivered is lost.
-/

namespace Strongbox.Random

/-- **Where the bytes of a draw came from.** It is what a draw reports,
and all that a caller learns of the sources. -/
inductive Origin where
  /-- From the source of this name. -/
  | source (name : String)
  /-- From the constant seed. -/
  | fallback
  deriving DecidableEq, Repr

namespace Origin

/-- The name of an origin. A source may have this name too; `isFallback`
tells the two apart. -/
def name : Origin → String
  | source name => name
  | fallback => "fallback"

/-- Whether every source had failed. Whoever asks for a new seed can see
by it that nothing came from outside. -/
def isFallback : Origin → Bool
  | source _ => false
  | fallback => true

end Origin

/-- **Sources in the order in which they are asked.** There may be none,
and then every draw takes the constant seed. -/
structure Cascade where
  /-- The sources. -/
  sources : List Source

namespace Cascade

/-- **The constant seed**: the initial words of SHA-512, most
significant byte first. It has 64 bytes, and is repeated for a longer
draw. -/
def fallbackSeed : Bytes :=
  [0x6A09E667F3BCC908, 0xBB67AE8584CAA73B,
    0x3C6EF372FE94F82B, 0xA54FF53A5F1D36F1,
    0x510E527FADE682D1, 0x9B05688C2B3E6C1F,
    0x1F83D9ABFB41BD6B, 0x5BE0CD19137E2179].flatMap (Bytes.bigEndian 8)

/-- The sources of the machine: the two instructions, then the kernel.
Since the two instructions are not there, a draw is the kernel's, or the
constant seed if the kernel fails. -/
def system : Cascade := ⟨[Source.rdseed, Source.rdrand, Source.kernel]⟩

/-- The names of the sources. Two of them may be the same. -/
def names (c : Cascade) : List String := c.sources.map Source.name

/-- How often each source has been called. It tells which of them a draw
has asked. -/
def calls (c : Cascade) : List Nat := c.sources.map Source.calls

/-- How a cascade shows itself: its names. Nothing of what has been
drawn is shown. -/
def describe (c : Cascade) : String := Text.quotedList c.names

/-- **A draw**: where the bytes came from, the destination afterwards,
and the sources and the host with the calls counted. The sources are a
list while they are asked, and a cascade when the draw is done. -/
structure Draw (σ : Type) where
  /-- Where the bytes came from. -/
  origin : Origin
  /-- The destination afterwards. -/
  bytes : Bytes
  /-- The sources afterwards. -/
  sources : σ
  /-- The host afterwards. -/
  host : Host

/-- **Asks sources in order**, until one delivers. The sources behind
the one that delivers are not asked, and stay as they were. -/
def drawFrom : List Source → (dest : Bytes) → Host → Draw (List Source)
  | [], dest, h => ⟨.fallback, Bytes.repeated fallbackSeed dest.length, [], h⟩
  | s :: rest, dest, h =>
    match s.fill dest h with
    | (.ok (), dest, called, h) => ⟨.source s.name, dest, called :: rest, h⟩
    | (.error _, dest, called, h) =>
      let drawn := drawFrom rest (Bytes.zeros dest.length) h
      { drawn with sources := called :: drawn.sources }

/-- A sample of the clock, as it is mixed in. It has eight bytes, and so
it reaches over the first eight of a destination. -/
def clockMask (sample : Nat) : Bytes := Bytes.littleEndian 8 sample

/-- **Draws into a destination**: the sources, then the clock. The clock
is read once, after the last source that was asked. -/
def draw (c : Cascade) (dest : Bytes) (h : Host) : Draw Cascade :=
  let drawn := drawFrom c.sources dest h
  let (sample, host) := drawn.host.sampleClock
  { origin := drawn.origin
    bytes := Bytes.mixInto (clockMask sample) drawn.bytes
    sources := ⟨drawn.sources⟩
    host }

end Cascade

end Strongbox.Random
