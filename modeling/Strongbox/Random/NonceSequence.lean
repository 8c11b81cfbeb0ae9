import Strongbox.Random.Words

/-!
# Nonces for a session

The nonces of one session are a counter of four bytes, which begins at a
random word and goes up by one from nonce to nonce, followed by fresh
random bytes. The counter alone keeps 2³² consecutive nonces apart,
whatever the random source does; the random bytes keep sessions apart.

The sequence does not own its source. It is handed one for every nonce,
so that others may draw from the same source in between.

## The counter

The counter is drawn when the first nonce is asked for and not when the
sequence is made, and is not drawn again. It begins at a random word so
that two sessions do not begin alike, and it goes on modulo 2³², so that
it comes again only after as many others. Two nonces of one session can
be equal only if both the counter has come round and the random bytes
have come again.

A nonce is longer than the counter in every use of a sequence, so that
there are always random bytes behind it. The definitions do not ask for
this, and neither do the laws of the counter; where the random bytes are
spoken of, the length is a hypothesis.
-/

namespace Strongbox.Random

/-- The bytes of the counter in front of every nonce. It is one word. -/
def counterLength : Nat := 4

/-- **A sequence of nonces between two of them.** It is small enough to
be kept by whoever uses it, and holds no part of a nonce that has been
handed out but its counter. -/
structure NonceSequence where
  /-- The length of every nonce. -/
  length : Nat
  /-- The counter of the next nonce, once there has been one. -/
  counter? : Option UInt32
  deriving DecidableEq, Repr

namespace NonceSequence

/-- A sequence before its first nonce. Nothing has been drawn for it,
and nothing will be until a nonce is asked for. -/
def start (length : Nat) : NonceSequence := ⟨length, none⟩

variable {ρ : Type} [RandomSource ρ]

/-- The counter of the next nonce, drawn from the source for the first
one. A source is asked for a word once in the life of a sequence. -/
def counter (s : NonceSequence) (r : ρ) : UInt32 × ρ :=
  match s.counter? with
  | some counter => (counter, r)
  | none => RandomSource.word r

/-- **The next nonce**: the counter, least significant byte first, and
random bytes up to the length. The counter of the nonce after it is
kept. -/
def next (s : NonceSequence) (r : ρ) : Bytes × NonceSequence × ρ :=
  let (counter, r) := s.counter r
  let (suffix, r) := RandomSource.fill r (s.length - counterLength)
  (Bytes.ofWord counter ++ suffix, { s with counter? := some (counter + 1) }, r)

/-- **The next `count` nonces.** They are asked for one after another,
with nothing drawn in between. -/
def nexts (s : NonceSequence) (r : ρ) : Nat → List Bytes × NonceSequence × ρ
  | 0 => ([], s, r)
  | count + 1 =>
    let (nonce, s, r) := s.next r
    let (nonces, s, r) := nexts s r count
    (nonce :: nonces, s, r)

end NonceSequence

end Strongbox.Random
