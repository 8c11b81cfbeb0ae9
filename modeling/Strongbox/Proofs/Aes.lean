import Mathlib.Tactic.LinearCombination
import Strongbox.Aes
import Strongbox.Proofs.Aes.SBox
import Strongbox.Proofs.WholeBlocks

/-!
# AES sends no two blocks to the same one

Every step of the cipher can be undone, under every key: the round keys
are added, the bytes are moved and substituted, and the columns are
mixed by a matrix that has an inverse. The rounds compute with whole
columns and a table; `bytes` looks into the columns, where a mixed
column is four sums of products in the byte field (`bytes_mixedColumn`)
and a plain one its four substituted bytes (`bytes_plainColumn`). From
either, the four bytes that went into it can be told.

A round takes the bytes of a column from four different ones, and each
byte of the state goes into one column. `shiftedRound_injective` puts
the columns together again, for both kinds of rounds.

## Two kinds of columns

The two kinds of rounds differ in what is done to a column after its
bytes have been put together and substituted, and in nothing else. So
both are a `shiftedRound` with some function for a column, and what is
asked of that function is that its value tells the four bytes it was
made of. A plain column does, because substituting loses nothing. A
mixed one does, because the matrix of `MixColumns` has no kernel, which
is an identity over any ring in which two is zero (`eq_zero_of_mixed`)
and is applied to the values of bytes in their field.

Nothing is said of the key schedule: a round can be undone under every
round key, and so can the cipher under any list of them.
-/

namespace Strongbox.Aes

/-! ## Bytes of a column -/

/-- **The bytes of a column**, the highest first. The order is that of a
block, in which the first byte of a column comes first. -/
def bytes (w : UInt32) : Bytes :=
  [(w >>> 24).toUInt8, (w >>> 16).toUInt8, (w >>> 8).toUInt8, w.toUInt8]

/-- A column is put together from its bytes. A table entry and a key
word are of this form. -/
theorem bytes_word (a b c d : UInt8) : bytes (word a b c d) = [a, b, c, d] := by
  unfold bytes
  congr <;>
  · refine UInt8.toBitVec_inj.mp (BitVec.eq_of_getLsbD_eq fun i hi => ?_)
    simp (disch := omega)
      [word, BitVec.getLsbD_of_ge, decide_eq_true, decide_eq_false]

/-- A column is determined by its bytes, which are all of its bits. -/
theorem bytes_injective : Function.Injective bytes := by
  intro w v h
  simp only [bytes, List.cons.injEq, ← UInt8.toNat_inj, UInt32.toNat_toUInt8,
    UInt32.toNat_shiftRight, UInt32.reduceToNat, Nat.reduceMod,
    Nat.shiftRight_eq_div_pow,
    Nat.reducePow, and_true] at h
  have hw := w.toNat_lt
  have hv := v.toNat_lt
  refine UInt32.toNat_inj.mp ?_
  omega

/-- A round key is added byte by byte, which is the way the standard
adds it to the state. -/
theorem bytes_xor (w v : UInt32) :
    bytes (w ^^^ v) = List.zipWith (· ^^^ ·) (bytes w) (bytes v) := by
  simp [bytes, UInt32.shiftRight_xor]

/-- A rotation by whole bytes moves the bytes. The three amounts are
those of the rows. -/
theorem bytes_rotateRight {w : UInt32} {a b c d : UInt8}
    (h : bytes w = [a, b, c, d]) :
    bytes (rotateRight w 8) = [d, a, b, c]
      ∧ bytes (rotateRight w 16) = [c, d, a, b]
      ∧ bytes (rotateRight w 24) = [b, c, d, a] := by
  simp only [bytes, List.cons.injEq, and_true] at h
  obtain ⟨rfl, rfl, rfl, rfl⟩ := h
  unfold bytes rotateRight
  simp only [List.cons.injEq, and_true]
  refine ⟨⟨?_, ?_, ?_, ?_⟩, ⟨?_, ?_, ?_, ?_⟩, ⟨?_, ?_, ?_, ?_⟩⟩ <;>
    refine UInt8.toBitVec_inj.mp (BitVec.eq_of_getLsbD_eq fun i hi => ?_) <;>
    simp (disch := omega)
      [-BitVec.getLsbD_eq_getElem, BitVec.getLsbD_of_ge, decide_eq_true,
        decide_eq_false]
  all_goals exact congrArg _ (by omega)

/-! ## Columns of a round -/

/-- The four bytes that go into a column: one from each of the columns
that `ShiftRows` takes them from. `ShiftRows` is nothing else than this
choice. -/
def diagonal (a b c d : UInt32) : Bytes :=
  [(a >>> 24).toUInt8, (b >>> 16).toUInt8, (c >>> 8).toUInt8, d.toUInt8]

/-- The bytes of a plain column are the substituted ones, and no others:
the last round leaves the mixing out. -/
theorem bytes_plainColumn (a b c d : UInt32) :
    bytes (plainColumn a b c d) = (diagonal a b c d).map substitute :=
  bytes_word ..

/-- **The matrix of `MixColumns`** on the bytes of a column. It is
applied to four bytes only, so that the last case does not occur. -/
def mixed : Bytes → Bytes
  | [a, b, c, d] =>
    [double a ^^^ (double b ^^^ b) ^^^ c ^^^ d,
      a ^^^ double b ^^^ (double c ^^^ c) ^^^ d,
      a ^^^ b ^^^ double c ^^^ (double d ^^^ d),
      (double a ^^^ a) ^^^ b ^^^ c ^^^ double d]
  | _ => []

/-- The table has the columns of the matrix in it. Each of the four
looks gives a column of it, turned to its row. -/
theorem bytes_mixedColumn (a b c d : UInt32) :
    bytes (mixedColumn a b c d)
      = mixed ((diagonal a b c d).map substitute) := by
  have hrotated (s : UInt8) :=
    bytes_rotateRight (bytes_word (double s) s s (double s ^^^ s))
  unfold mixedColumn mixTable
  simp only [look_tabulate, bytes_xor, bytes_word, hrotated]
  rfl

/-- **The matrix of `MixColumns` has no kernel**, in any ring where two
is zero and whatever its element `r` is. The sum of the rows is the sum
of the unknowns, so that each row comes down to two of them. It is
enough to show it for the first unknown, since the system is the same
for the others after a turn. -/
theorem eq_zero_of_mixed {R : Type} [CommRing R] (htwo : (2 : R) = 0)
    {r x y z w : R} (h₀ : r * x + (r + 1) * y + z + w = 0)
    (h₁ : x + r * y + (r + 1) * z + w = 0)
    (h₂ : x + y + r * z + (r + 1) * w = 0)
    (h₃ : (r + 1) * x + y + z + r * w = 0) : x = 0 := by
  have hsum : x + y + z + w = 0 := by
    linear_combination h₀ + h₁ + h₂ + h₃ - (r + 1) * (x + y + z + w) * htwo
  have hxy : r * (x + y) = x := by linear_combination h₀ - hsum
  have hyz : r * (y + z) = y := by linear_combination h₁ - hsum
  have hzw : r * (z + w) = z := by linear_combination h₂ - hsum
  have hopposite : x + z = 0 := by linear_combination r * hsum - hxy - hzw
  have hequal : x = y := by
    linear_combination r * x * htwo - hxy + hyz - r * hopposite
  linear_combination r * x * htwo - hxy - r * hequal

/-- **A mixed column tells what it was mixed from.** The sum of two such
columns is mixed to zero. -/
theorem mixed_injective {a b c d a' b' c' d' : UInt8}
    (h : mixed [a, b, c, d] = mixed [a', b', c', d']) :
    [a, b, c, d] = [a', b', c', d'] := by
  simp only [mixed, List.cons.injEq, and_true] at h
  obtain ⟨h₀, h₁, h₂, h₃⟩ := h
  replace h₀ := congrArg value h₀
  replace h₁ := congrArg value h₁
  replace h₂ := congrArg value h₂
  replace h₃ := congrArg value h₃
  -- The differences of the bytes solve the homogeneous equations.
  simp only [value_xor, value_double] at h₀ h₁ h₂ h₃
  have htwo : (2 : AdjoinRoot polynomial) = 0 :=
    one_add_one_eq_two.symm.trans (ZModModule.add_self 1)
  -- The matrix is the same from each of its rows on.
  have ha : value a - value a' = 0 :=
    eq_zero_of_mixed (r := root) (y := value b - value b')
      (z := value c - value c')
      (w := value d - value d') htwo (by linear_combination h₀)
        (by linear_combination h₁)
      (by linear_combination h₂) (by linear_combination h₃)
  have hb : value b - value b' = 0 :=
    eq_zero_of_mixed (r := root) (y := value c - value c')
      (z := value d - value d')
      (w := value a - value a') htwo (by linear_combination h₁)
        (by linear_combination h₂)
      (by linear_combination h₃) (by linear_combination h₀)
  have hc : value c - value c' = 0 :=
    eq_zero_of_mixed (r := root) (y := value d - value d')
      (z := value a - value a')
      (w := value b - value b') htwo (by linear_combination h₂)
        (by linear_combination h₃)
      (by linear_combination h₀) (by linear_combination h₁)
  have hd : value d - value d' = 0 :=
    eq_zero_of_mixed (r := root) (y := value a - value a')
      (z := value b - value b')
      (w := value c - value c') htwo (by linear_combination h₃)
        (by linear_combination h₀)
      (by linear_combination h₁) (by linear_combination h₂)
  rw [value_injective (sub_eq_zero.mp ha), value_injective (sub_eq_zero.mp hb),
    value_injective (sub_eq_zero.mp hc), value_injective (sub_eq_zero.mp hd)]

/-- The substitution box is one to one, and so four bytes can be told
from what it makes of them, whichever columns they come from. -/
theorem diagonal_eq_of_substituted {a b c d a' b' c' d' : UInt32}
    (h : (diagonal a b c d).map substitute
        = (diagonal a' b' c' d').map substitute) :
    diagonal a b c d = diagonal a' b' c' d' :=
  List.map_injective_iff.mpr substitute_injective h

/-- **A plain column** tells the four bytes it was made of, because
substituting loses nothing. -/
theorem diagonal_eq_of_plainColumn {a b c d a' b' c' d' : UInt32}
    (h : plainColumn a b c d = plainColumn a' b' c' d') :
    diagonal a b c d = diagonal a' b' c' d' := by
  have hbytes := congrArg bytes h
  rw [bytes_plainColumn, bytes_plainColumn] at hbytes
  exact diagonal_eq_of_substituted hbytes

/-- **A mixed column** tells the four bytes it was made of: neither
mixing nor substituting loses anything. -/
theorem diagonal_eq_of_mixedColumn {a b c d a' b' c' d' : UInt32}
    (h : mixedColumn a b c d = mixedColumn a' b' c' d') :
    diagonal a b c d = diagonal a' b' c' d' := by
  have hbytes := congrArg bytes h
  rw [bytes_mixedColumn, bytes_mixedColumn] at hbytes
  exact diagonal_eq_of_substituted (mixed_injective hbytes)

/-! ## Rounds -/

/-- A round whose columns are made by some function of the four they
take their bytes from. The round of AES and its last one are both of
this kind. -/
def shiftedRound (column : UInt32 → UInt32 → UInt32 → UInt32 → UInt32)
    (s k : Columns) :
    Columns :=
  ⟨column s.c0 s.c1 s.c2 s.c3 ^^^ k.c0, column s.c1 s.c2 s.c3 s.c0 ^^^ k.c1,
    column s.c2 s.c3 s.c0 s.c1 ^^^ k.c2, column s.c3 s.c0 s.c1 s.c2 ^^^ k.c3⟩

/-- **A round can be undone if its columns can**: every byte of the
state has gone into one of them. The four diagonals hold all sixteen
bytes. -/
theorem shiftedRound_injective
    {column : UInt32 → UInt32 → UInt32 → UInt32 → UInt32}
    (hcolumn : ∀ {a b c d a' b' c' d' : UInt32},
        column a b c d = column a' b' c' d'
          → diagonal a b c d = diagonal a' b' c' d')
    (k : Columns) :
    Function.Injective fun s => shiftedRound column s k := by
  intro s t h
  obtain ⟨s₀, s₁, s₂, s₃⟩ := s
  obtain ⟨t₀, t₁, t₂, t₃⟩ := t
  simp only [shiftedRound, Columns.mk.injEq, UInt32.xor_left_inj] at h
  obtain ⟨h₀, h₁, h₂, h₃⟩ := h
  -- Each equation of diagonals has one byte of every column in it.
  replace h₀ := hcolumn h₀
  replace h₁ := hcolumn h₁
  replace h₂ := hcolumn h₂
  replace h₃ := hcolumn h₃
  simp only [diagonal, List.cons.injEq, and_true] at h₀ h₁ h₂ h₃
  have hs₀ : s₀ = t₀ := bytes_injective (by simp [bytes, *])
  have hs₁ : s₁ = t₁ := bytes_injective (by simp [bytes, *])
  have hs₂ : s₂ = t₂ := bytes_injective (by simp [bytes, *])
  have hs₃ : s₃ = t₃ := bytes_injective (by simp [bytes, *])
  rw [hs₀, hs₁, hs₂, hs₃]

/-- A round can be undone under every round key, as a shifted round
whose columns are mixed. -/
theorem round_injective (k : Columns) : Function.Injective fun s => round s k :=
  shiftedRound_injective diagonal_eq_of_mixedColumn k

/-- The last round can be undone under every round key, as a shifted
round whose columns are plain. -/
theorem lastRound_injective (k : Columns) :
    Function.Injective fun s => lastRound s k :=
  shiftedRound_injective diagonal_eq_of_plainColumn k

namespace Columns

/-- Adding a round key twice takes it away again, so that no two states
are brought together by it. -/
theorem add_injective (k : Columns) :
    Function.Injective fun s : Columns => s.add k := by
  intro s t h
  obtain ⟨s₀, s₁, s₂, s₃⟩ := s
  obtain ⟨t₀, t₁, t₂, t₃⟩ := t
  simpa [add] using h

/-- The bytes of a block are those of its columns, one behind the other.
It is in this order that the standard fills its square of bytes. -/
theorem toBytes_toBlock (s : Columns) :
    s.toBlock.toBytes = bytes s.c0 ++ bytes s.c1 ++ bytes s.c2 ++ bytes s.c3 :=
      rfl

/-- Columns are determined by the block they make: four bytes of it for
each of them. -/
theorem toBlock_injective : Function.Injective toBlock := by
  intro s t h
  have hbytes := congrArg Block.toBytes h
  rw [toBytes_toBlock, toBytes_toBlock] at hbytes
  obtain ⟨hbytes, h₃⟩ := List.append_inj hbytes rfl
  obtain ⟨hbytes, h₂⟩ := List.append_inj hbytes rfl
  obtain ⟨h₀, h₁⟩ := List.append_inj hbytes rfl
  obtain ⟨s₀, s₁, s₂, s₃⟩ := s
  obtain ⟨t₀, t₁, t₂, t₃⟩ := t
  simpa only [mk.injEq] using
    ⟨bytes_injective h₀, bytes_injective h₁, bytes_injective h₂,
      bytes_injective h₃⟩

/-- A block that is read into columns is written back as it was. The
first byte of a column is the highest in both directions. -/
theorem toBlock_ofBlock (b : Block) : (ofBlock b).toBlock = b := by
  refine Vector.toList_inj.mp ((toBytes_toBlock _).trans ?_)
  unfold ofBlock
  rw [bytes_word, bytes_word, bytes_word, bytes_word]
  exact b.map_byte_range

/-- A block is determined by the columns it is read into, so that
nothing is lost before the first round. -/
theorem ofBlock_injective : Function.Injective ofBlock :=
  Function.LeftInverse.injective toBlock_ofBlock

end Columns

/-- **No two blocks are encrypted to the same one**, whatever the round
keys are. It is put together from one-to-one steps: reading, adding,
rounds, writing. -/
theorem Cipher.encrypt_injective (cipher : Cipher) :
    Function.Injective cipher.encrypt := by
  have hrounds : Function.Injective fun s => cipher.inner.foldl round s := by
    induction cipher.inner with
    | nil => exact fun _ _ h => h
    | cons k keys ih => exact ih.comp (round_injective k)
  exact Columns.toBlock_injective.comp
    ((lastRound_injective cipher.final).comp
      (hrounds.comp
        ((Columns.add_injective cipher.whitening).comp
          Columns.ofBlock_injective)))

/-- **AES under a key is injective on blocks.** The key must have one of
the three lengths, or there is no cipher. -/
theorem encrypt_injective {key : Bytes} {cipher : BlockCipher}
    (h : blockCipher? key = some cipher) :
    Function.Injective cipher.encrypt := by
  obtain ⟨ready, -, rfl⟩ := Option.map_eq_some_iff.mp h
  exact ready.encrypt_injective

/-- **The key of sixteen zeros** does not encrypt the zero block to
itself. So the hash key of a stream under it is not zero. -/
theorem encrypt_zero_ne {cipher : BlockCipher}
    (h : blockCipher? (Bytes.zeros 16) = some cipher) :
    cipher.encrypt Block.zero ≠ Block.zero := by
  obtain ⟨ready, hready, rfl⟩ := Option.map_eq_some_iff.mp h
  have hcomputed : (Cipher.ofKey? (Bytes.zeros 16)).map
      (fun c => c.encrypt Block.zero == Block.zero) = some false := by
    -- Everything is opened down to the inverse, which is computed the short
    -- way.
    delta Cipher.ofKey? Cipher.encrypt round lastRound mixedColumn mixTable
      expand expand._f
      nextWord substituteWord plainColumn substitute boxTable
    simp only [look_tabulate]
    rw [inverse_eq_inverseByChain]
    decide +kernel
  rw [hready] at hcomputed
  simpa using hcomputed

end Strongbox.Aes
