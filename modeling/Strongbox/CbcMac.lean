import Strongbox.Block

/-!
# CBC-MAC

The chained message authentication code of counter with CBC-MAC mode
(NIST SP 800-38C): start from the zero block, and for every block of the
input add it to the chaining value and encrypt.

`CbcMac.ofBlocks` is that chain. `CbcMac` is the same chain over bytes
that arrive in pieces: every byte is added to the chaining value where
it falls, and the value is encrypted when its sixteenth byte has been
reached. `pad` closes a block that is under way; the zeros it stands for
need not be added, so it only encrypts, and at a block boundary it does
nothing. `run` is any list of such calls, on a place in which one chain
may be begun after another.

## Bytes and blocks

The two forms meet where a block is complete. A byte stream that is at a
boundary has chained the blocks of what it has taken in, and a stream
inside a block holds the chaining value of the blocks before it with the
bytes of the block under way already added. So there is no separate
buffer for a block that is not complete: adding the bytes to the
chaining value as they come is the sum of the two blocks, and zeros add
nothing.

## Calls

A chain runs in a place that is given to it, and the place may hold
anything before the first `start`. The calls are in any order: a second
`start` in the middle of a block throws away what was there, and a `pad`
may come twice. What is left in the place after a list of calls is
`run`, and it is stated with no regard to who makes the calls.
-/

namespace Strongbox

/-- **The chain over a byte stream so far.** `filled` is below sixteen
at all times, since the sixteenth byte closes its block at once. -/
structure CbcMac where
  /-- The chaining value, with the bytes of the block under way added
  in. -/
  chain : Block
  /-- How many bytes of the block under way have been added. -/
  filled : Nat
  deriving DecidableEq, Repr

namespace CbcMac

/-- The empty stream. The chain of no block is the zero block. -/
def start : CbcMac := ⟨Block.zero, 0⟩

variable (cipher : Block → Block)

/-- One link of the chain: add a block, encrypt. It is the cipher-block
chaining of one block, of which only the last result is kept. -/
def link (chain block : Block) : Block := cipher (chain.xor block)

/-- **The chain over a list of blocks.** This is the chain the standard
states, over an input that is there as a whole. -/
def ofBlocks (blocks : List Block) : Block :=
  blocks.foldl (link cipher) Block.zero

/-- Takes in the next byte, closing a block with every sixteenth. The
sixteenth byte is told from the others by the count alone; the chaining
value is added to in both cases. -/
def push (mac : CbcMac) (byte : UInt8) : CbcMac :=
  if h : mac.filled < 15 then
    { chain := mac.chain.set mac.filled (mac.chain[mac.filled] ^^^ byte)
      filled := mac.filled + 1 }
  else
    { chain := cipher (mac.chain.set 15 (mac.chain[15] ^^^ byte)), filled := 0 }

/-- **Takes in the next bytes.** How a stream is cut into calls makes no
difference. It is a fold, so that `absorb_append` is a fact about folds. -/
def absorb (mac : CbcMac) (bytes : Bytes) : CbcMac :=
  bytes.foldl (push cipher) mac

@[simp] theorem absorb_nil (mac : CbcMac) : mac.absorb cipher [] = mac := rfl

theorem absorb_append (mac : CbcMac) (a b : Bytes) :
    mac.absorb cipher (a ++ b) = (mac.absorb cipher a).absorb cipher b :=
  List.foldl_append

/-- **Closes the block under way** as if zeros had been added. It is
what separates associated data from the message, which begin with a
block each. -/
def pad (mac : CbcMac) : CbcMac :=
  if mac.filled = 0 then mac else { chain := cipher mac.chain, filled := 0 }

/-- **Begins again**, whatever the chaining value held: its bytes are
wiped and no byte counts as added. The wiping is written as such, and
not as a new block put in place of the old one; `restart_eq` says that
there is no difference. -/
def restart (mac : CbcMac) : CbcMac :=
  { chain := mac.chain.map fun _ => 0, filled := 0 }

/-- A place in which a chain is begun again is as good as a new one. -/
@[simp] theorem restart_eq (mac : CbcMac) : mac.restart = start := by
  have h : mac.chain.map (fun _ => (0 : UInt8)) = Block.zero := by
    apply Vector.ext
    simp [Block.zero]
  simp [restart, start, h]

/-! ## Calls -/

/-- **A call** on the place in which a chain runs. They are the three
operations that the authentication of the mode calls on its chaining
block. -/
inductive Call where
  /-- Begin a chain, whatever the chaining value holds. -/
  | start
  /-- Take in the next bytes. -/
  | update (data : Bytes)
  /-- Close the block under way. -/
  | pad
  deriving DecidableEq, Repr

/-- One call. Each call is one function on the state of the place; none
of them can fail. -/
def step (mac : CbcMac) : Call → CbcMac
  | .start => mac.restart
  | .update data => mac.absorb cipher data
  | .pad => mac.pad cipher

/-- **A list of calls**, one after the other. The state it leaves
depends on the cipher, the bytes and the cuts; what the dependence on
the cuts comes to is told in the proofs about segments. -/
def run (mac : CbcMac) (calls : List Call) : CbcMac :=
  calls.foldl (step cipher) mac

theorem run_cons (mac : CbcMac) (call : Call) (later : List Call) :
    mac.run cipher (call :: later)
      = (mac.step cipher call).run cipher later :=
  rfl

/-- A list of calls may be cut anywhere: the second part goes on from
the state the first one leaves. -/
theorem run_append (mac : CbcMac) (a b : List Call) :
    mac.run cipher (a ++ b) = (mac.run cipher a).run cipher b :=
  List.foldl_append

end CbcMac

end Strongbox
