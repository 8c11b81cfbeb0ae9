import Strongbox.Keystream.Position

/-!
# A message under a stream of bytes

`Keystream.under` combines a piece of a message with the bytes of a
stream from a position on. The stream is a function of the position
alone, so that the pieces of a message fit together (`under_append`) and
taking the stream off again is putting it on (`under_under`). Everything
that a mode of this library says about its transforms it says through
this function; `After.apply_eq` is where it meets the state that a
keystream keeps.

## A stream without a state

A stream is given as a function from positions to bytes. No cipher and
no counter appear in the laws about it, and what they say holds of any
stream: a message may be cut into pieces, its length stays, and putting
the stream on twice takes it off. That a message which has been
encrypted comes back by decryption is the last of these and needs
nothing else, since both directions have the same stream.

`repeat_next` is about the one difference between a standard and a
stream, which is where the counting begins: at the block before the
first one, or at the first one.
-/

namespace Strongbox.Keystream

/-- **A piece of a message under the bytes of a stream** from position
`j` on. The same function takes it off again. -/
def under (stream : Nat → UInt8) (j : Nat) (piece : Bytes) : Bytes :=
  piece.mapIdx fun i byte => byte ^^^ stream (j + i)

variable (stream : Nat → UInt8) (j : Nat)

@[simp] theorem under_nil : under stream j [] = [] := rfl

/-- A message and its encryption have the same length. -/
@[simp] theorem length_under (piece : Bytes) :
    (under stream j piece).length = piece.length :=
  List.length_mapIdx

/-- **The pieces of a message fit together**: the second begins where
the first has ended. The stream is the same for both, and only the
position moves. -/
theorem under_append (a b : Bytes) :
    under stream j (a ++ b)
      = under stream j a ++ under stream (j + a.length) b := by
  unfold under
  rw [List.mapIdx_append]
  refine congrArg (List.mapIdx _ a ++ ·) ?_
  refine congrArg (List.mapIdx · b) ?_
  funext i byte
  rw [Nat.add_comm i, Nat.add_assoc]

/-- **What has been put on is taken off again.** The exclusive or with a
byte is its own inverse. -/
@[simp] theorem under_under (piece : Bytes) :
    under stream j (under stream j piece) = piece := by
  unfold under
  rw [List.mapIdx_mapIdx]
  refine List.ext_getElem (by simp) (fun i h₁ h₂ => ?_)
  rw [List.getElem_mapIdx]
  show (piece[i] ^^^ stream (j + i)) ^^^ stream (j + i) = piece[i]
  rw [UInt8.xor_assoc, UInt8.xor_self, UInt8.xor_zero]

variable {cipher next : Block → Block}

/-- Counting on from the next block is counting once more. By induction
on the number of steps. -/
theorem repeat_next (n : Nat) (first : Block) :
    Nat.repeat next n (next first) = Nat.repeat next (n + 1) first := by
  induction n with
  | zero => rfl
  | succ n ih => exact congrArg next ih

/-- **What a keystream does to a piece** depends on the position it has
reached and on nothing else of its state. It is what a theorem about a
whole message takes from the pieces. -/
theorem After.apply_eq {first : Block} {j : Nat} {k : Keystream}
    (h : After cipher next first j k) (piece : Bytes) :
    (k.apply cipher next piece).1 = under (byteAt cipher next first) j piece :=
  (h.apply cipher next piece).1

end Strongbox.Keystream
