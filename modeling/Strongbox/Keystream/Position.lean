import Strongbox.Keystream

/-!
# Positions in a keystream

A `Keystream` works through its blocks with a cursor; `Keystream.byteAt`
says what byte stands at a position, with no state at all.
`Keystream.After` is what joins the two: the state in which a stream is
after a number of bytes.

`After.pull` is the step from one byte to the next, and `After.apply`
what a message of any pieces comes to: byte after byte under the stream
of bytes from where it began.

## Counting blocks

After `j` bytes the stream has encrypted as many blocks as those bytes
touch, which is `j / 16` rounded up, and its counter has been stepped as
often. If `j` falls inside a block, that block is there and `j % 16` of
its bytes are spent. If it falls on a boundary, the block before it is
used up and says nothing about what comes; this is why the third field
of `After` is about the first case only.

The two cases of `After.pull` are the two cases of `pull`: at a boundary
a block is encrypted, and inside one the cursor moves.
-/

namespace Strongbox.Keystream

variable (cipher next : Block → Block)

/-- **The state of a stream after `j` bytes.** The state is a function
of `j` and of the first counter block, except for a block that is used
up. It does not depend on the message, nor on how the message was cut. -/
structure After (first : Block) (j : Nat) (k : Keystream) : Prop where
  /-- Every block that has been touched has been counted. -/
  counter : k.counter = Nat.repeat next ((j + 15) / 16) first
  /-- The bytes that were handed out of the current block. -/
  spent : k.spent = if j % 16 = 0 then 16 else j % 16
  /-- A block that is under way is the encryption of its counter block. -/
  block : j % 16 ≠ 0 → k.block = cipher (Nat.repeat next (j / 16) first)

/-- A stream begins after no byte. It is the case of a message whose
first piece is still to come. -/
theorem After.start (first : Block) :
    After cipher next first 0 (start first) where
  counter := rfl
  spent := rfl
  block h := absurd rfl h

/-- **The byte pulled after `j` bytes is byte `j`.** The stream goes on
to the state after one byte more, and so from byte to byte. -/
theorem After.pull {first : Block} {j : Nat} {k : Keystream}
    (h : After cipher next first j k) :
    (k.pull cipher next).1 = byteAt cipher next first j
      ∧ After cipher next first (j + 1) (k.pull cipher next).2 := by
  obtain ⟨counter, block, spent⟩ := k
  obtain ⟨hc, hs, hb⟩ := h
  simp only at hc hs hb
  by_cases hj : j % 16 = 0
  · rw [if_pos hj] at hs
    subst hs
    have hq : (j + 15) / 16 = j / 16 := by omega
    rw [hq] at hc
    subst hc
    refine ⟨?_, ?_, ?_, ?_⟩
    · simp [Keystream.pull, byteAt, hj, Vector.get]
    · have : (j + 1 + 15) / 16 = j / 16 + 1 := by omega
      simp [Keystream.pull, this, Nat.repeat]
    · have : (j + 1) % 16 = 1 := by omega
      simp [Keystream.pull, this]
    · intro _
      have : (j + 1) / 16 = j / 16 := by omega
      simp [Keystream.pull, this]
  · rw [if_neg hj] at hs
    subst hs
    have hlt : j % 16 < 16 := Nat.mod_lt j (by decide)
    have hb := hb hj
    subst hb
    subst hc
    refine ⟨?_, ?_, ?_, ?_⟩
    · simp [Keystream.pull, byteAt, hlt, Vector.get]
    · have : (j + 1 + 15) / 16 = (j + 15) / 16 := by omega
      simp [Keystream.pull, this, hlt]
    · simp only [Keystream.pull, hlt, dite_true]
      split <;> omega
    · intro h'
      have : (j + 1) / 16 = j / 16 := by omega
      simp [Keystream.pull, this, hlt]

/-- **A piece that comes after `j` bytes of a message is combined with
the bytes of the stream from `j` on**, wherever it falls between the
blocks. By induction over the piece: the first byte is the one pulled,
and the rest is a piece that comes after one byte more. -/
theorem After.apply {first : Block} {j : Nat} {k : Keystream}
    (h : After cipher next first j k) (bytes : Bytes) :
    (k.apply cipher next bytes).1
        = bytes.mapIdx (fun i byte => byte ^^^ byteAt cipher next first (j + i))
      ∧ After cipher next first (j + bytes.length)
        (k.apply cipher next bytes).2 := by
  induction bytes generalizing j k with
  | nil => exact ⟨rfl, h⟩
  | cons byte rest ih =>
    obtain ⟨hp, hn⟩ := h.pull
    obtain ⟨h1, h2⟩ := ih hn
    rw [apply_cons]
    refine ⟨?_, ?_⟩
    · simp only [h1, hp, List.mapIdx_cons, Nat.add_zero]
      congr 2
      funext i b
      rw [Nat.add_assoc, Nat.add_comm 1 i]
    · rw [List.length_cons, Nat.add_comm rest.length 1, ← Nat.add_assoc]
      exact h2

end Strongbox.Keystream
