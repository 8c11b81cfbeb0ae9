import Mathlib.Data.Nat.ModEq
import Strongbox.Aead.Ccm.Format
import Strongbox.Proofs.Bytes
import Strongbox.Proofs.Keystream

/-!
# Counting in blocks around a nonce

In counter with CBC-MAC mode the keystream is made of the counter blocks
of a nonce, each found from the one before by adding one to the number
behind the nonce. `repeat_nextCounter` says that this reaches the blocks
as the format numbers them, and `byteAt_counterBlock` what the bytes of
the keystream are therefore.

A number that does not fit its width is written with its low bytes only,
on both sides, so nothing has to be asked of the number; the limit on
messages is what keeps it from coming round.

No two of these blocks are the same by accident. The flags tell nonces
of different lengths apart, and opening blocks from counter blocks;
behind equal flags stand the nonce and the number, each in its own place
(`counterBlock_inj`, `openingBlock_ne_counterBlock`).

## Flags and widths

The flags of a counter block are the width of the number less one, and
the width is what the nonce leaves of fifteen bytes. So equal flags mean
nonces of one length, and then the nonce and the number stand at the
same places of both blocks and can be compared. The flags of an opening
block have the tag length above the width, where a counter block has
zeros.

The number is told only modulo its width. Two numbers that are written
alike differ by a multiple of `256 ^ width`; that there are no two such
numbers in one message is a matter of the limit on its length, and not
of the format.
-/

namespace Strongbox

namespace Aead.Ccm

variable (nonce : Bytes)

/-- A block around a nonce is filled exactly: flags, nonce, number.
There is no byte over, and none is missing. -/
theorem toBytes_nonceBlock (flags n : Nat) (h : nonce.length ≤ 15) :
    (nonceBlock flags nonce n).toBytes
      = UInt8.ofNat flags :: nonce
        ++ Bytes.bigEndian (lengthWidth nonce) n := by
  unfold nonceBlock
  refine Block.toBytes_ofBytes_of_length ?_
  rw [List.length_cons, List.length_append, Bytes.length_bigEndian, lengthWidth]
  omega

/-- **Adding one to a block around a nonce adds one to its number.** The
flags and the nonce are not touched. -/
theorem nextCounter_nonceBlock (flags n : Nat) (h : nonce.length ≤ 15) :
    nextCounter nonce (nonceBlock flags nonce n)
      = nonceBlock flags nonce (n + 1) := by
  have hhead : (UInt8.ofNat flags :: nonce).length
    = 16 - lengthWidth nonce := by
    rw [List.length_cons, lengthWidth]
    omega
  unfold nextCounter Block.increment Block.low
  rw [toBytes_nonceBlock nonce flags n h, List.take_left' hhead,
    List.drop_left' hhead,
    Bytes.ofBigEndian_bigEndian, Bytes.bigEndian_succ_mod]
  rfl

/-- Counting reaches the counter blocks in the order of their numbers.
By induction on the number of steps. -/
theorem repeat_nextCounter (h : nonce.length ≤ 15) (n k : Nat) :
    Nat.repeat (nextCounter nonce) k (counterBlock nonce n)
      = counterBlock nonce (n + k) := by
  induction k with
  | zero => rfl
  | succ k ih =>
    rw [Nat.repeat, ih]
    exact nextCounter_nonceBlock nonce _ _ h

/-- **The bytes of the keystream**: those of the encrypted counter
blocks, in the order of their numbers, from number one on. It is the
keystream of the standard, told by position. -/
theorem byteAt_counterBlock (cipher : Block → Block) (h : nonce.length ≤ 15)
    (j : Nat) :
    Keystream.byteAt cipher (nextCounter nonce) (counterBlock nonce 1) j
      = (cipher (counterBlock nonce (j / 16 + 1))).get
        ⟨j % 16, Block.mod_lt j⟩ := by
  unfold Keystream.byteAt
  rw [repeat_nextCounter nonce h, Nat.add_comm 1]

/-! ## Telling the blocks apart -/

/-- The flags of a block around a nonce, as they are written. They are
one byte, and have to be small enough for it. -/
theorem flags_eq_of_nonceBlock_eq {nonce₁ nonce₂ : Bytes}
    {flags₁ flags₂ n₁ n₂ : Nat} (h₁ : nonce₁.length ≤ 15)
    (h₂ : nonce₂.length ≤ 15) (hf₁ : flags₁ < 256) (hf₂ : flags₂ < 256)
    (h : nonceBlock flags₁ nonce₁ n₁ = nonceBlock flags₂ nonce₂ n₂) :
    flags₁ = flags₂ := by
  have hbytes := congrArg Block.toBytes h
  rw [toBytes_nonceBlock _ _ _ h₁, toBytes_nonceBlock _ _ _ h₂] at hbytes
  have hflags := congrArg UInt8.toNat (List.cons.inj hbytes).1
  rwa [UInt8.toNat_ofNat_of_lt' hf₁, UInt8.toNat_ofNat_of_lt' hf₂] at hflags

/-- Behind nonces of one length the number stands in one place. The
bytes behind the flags are cut where the nonce ends. -/
theorem nonceBlock_inj {nonce₁ nonce₂ : Bytes} {flags₁ flags₂ n₁ n₂ : Nat}
    (h₁ : nonce₁.length ≤ 15) (h₂ : nonce₂.length ≤ 15)
    (hlength : nonce₁.length = nonce₂.length)
    (h : nonceBlock flags₁ nonce₁ n₁ = nonceBlock flags₂ nonce₂ n₂) :
    nonce₁ = nonce₂ ∧ n₁ ≡ n₂ [MOD 256 ^ lengthWidth nonce₁] := by
  have hbytes := congrArg Block.toBytes h
  rw [toBytes_nonceBlock _ _ _ h₁, toBytes_nonceBlock _ _ _ h₂] at hbytes
  obtain ⟨rfl, hnumber⟩ := List.append_inj (List.cons.inj hbytes).2 hlength
  have hread := congrArg Bytes.ofBigEndian hnumber
  rw [Bytes.ofBigEndian_bigEndian, Bytes.ofBigEndian_bigEndian] at hread
  exact ⟨rfl, hread⟩

/-- **A counter block has one nonce and one number**, as far as the
number's width goes. Equal flags give nonces of one length, and the rest
is read off behind them. -/
theorem counterBlock_inj {nonce₁ nonce₂ : Bytes} {n₁ n₂ : Nat}
    (h₁ : nonce₁.length < 15) (h₂ : nonce₂.length < 15)
    (h : counterBlock nonce₁ n₁ = counterBlock nonce₂ n₂) :
    nonce₁ = nonce₂ ∧ n₁ ≡ n₂ [MOD 256 ^ lengthWidth nonce₁] := by
  have hflags := flags_eq_of_nonceBlock_eq (by omega) (by omega)
    (by unfold lengthWidth; omega) (by unfold lengthWidth; omega) h
  have hlength : nonce₁.length = nonce₂.length := by
    unfold lengthWidth at hflags
    omega
  exact nonceBlock_inj (by omega) (by omega) hlength h

/-- **No opening block is a counter block**, of whichever nonces: its
flags have the tag length in them, and those of a counter block end
below it. -/
theorem openingBlock_ne_counterBlock {tagLength n₁ n₂ : Nat}
    {nonce₁ nonce₂ aad : Bytes} (htag : tagLength ∈ tagLengths)
    (h₁ : minNonceLength ≤ nonce₁.length ∧ nonce₁.length ≤ maxNonceLength)
    (h₂ : minNonceLength ≤ nonce₂.length ∧ nonce₂.length ≤ maxNonceLength) :
    openingBlock tagLength nonce₁ aad n₁ ≠ counterBlock nonce₂ n₂ := by
  have hbounds : ∀ t ∈ tagLengths, 1 ≤ (t - 2) / 2 ∧ (t - 2) / 2 ≤ 7 := by
    decide
  obtain ⟨hlow, hhigh⟩ := hbounds tagLength htag
  unfold minNonceLength maxNonceLength at h₁ h₂
  have hopening : 8 ≤ openingFlags tagLength nonce₁ aad
      ∧ openingFlags tagLength nonce₁ aad < 256 := by
    unfold openingFlags lengthWidth
    split <;> omega
  intro h
  have hflags := flags_eq_of_nonceBlock_eq (by omega) (by omega) hopening.2
    (by unfold lengthWidth; omega) h
  unfold lengthWidth at hflags
  omega

end Aead.Ccm

end Strongbox
