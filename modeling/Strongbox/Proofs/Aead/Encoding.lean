import Mathlib.Data.List.Infix
import Strongbox.Proofs.Aead.Ccm

/-!
# No authenticated input begins another

In counter with CBC-MAC mode a tag is a chain over blocks, and a chain
that has run over some blocks can be made to run on. It therefore
matters that the blocks of one message are never those of another one,
nor their beginning. `macBlocks_prefix_inj` says so for messages under
nonces of any two lengths.

The blocks can be read back from the front. The flags of the first one
tell how long the nonce is and whether there is associated data, and
behind the nonce stands the length of the message. The header of the
associated data says its own length (`readAadLength_aadHeader`), so that
it is known where the data ends and the zeros behind it begin; and with
the length of the message the same is known of the message.

## Reading from the front

The statement is about lists of which one begins the other, and is
proved by taking the same thing off both. Each part of the input has a
length that is known before the part is read: the opening block is one
block, the header of the associated data says its own length and that of
the data, and the length of the message is in the opening block. So
whenever one part has been found equal in both, the next one begins at
the same place.

Where a length comes from is not the same for all parts, and the flags
say whether there is associated data at all. Without that bit, a message
without associated data could have the blocks of one with it.
-/

namespace Strongbox

namespace Bytes

/-- Of two byte strings one of which begins the other, the first bytes
are the same, as many as both have. It is how one part is taken off both
lists. -/
theorem eq_of_append_prefix_append {a b x y : Bytes}
    (hlength : a.length = b.length) (h : a ++ x <+: b ++ y) :
    a = b ∧ x <+: y := by
  have ha : a <+: b ++ y := (List.prefix_append a x).trans h
  have hb : b <+: b ++ y := List.prefix_append b y
  obtain rfl : a = b :=
    (List.prefix_of_prefix_length_le ha hb (Nat.le_of_eq hlength)).eq_of_length
      hlength
  exact ⟨rfl, (List.prefix_append_right_inj a).mp h⟩

end Bytes

namespace Aead.Ccm

/-! ## The opening block -/

/-- The flags of an opening block have two things in them besides the
tag length: whether there is associated data, and the width of the
number behind the nonce. The tag length is the same on both sides and is
taken away. -/
theorem openingFlags_inj {tagLength : Nat} {nonce₁ nonce₂ aad₁ aad₂ : Bytes}
    (h₁ : Mode.ccm.TakesNonce nonce₁) (h₂ : Mode.ccm.TakesNonce nonce₂)
    (h : openingFlags tagLength nonce₁ aad₁
        = openingFlags tagLength nonce₂ aad₂) :
    nonce₁.length = nonce₂.length ∧ aad₁.isEmpty = aad₂.isEmpty := by
  obtain ⟨hmin₁, hmax₁⟩ : 8 ≤ nonce₁.length ∧ nonce₁.length ≤ 12 := h₁
  obtain ⟨hmin₂, hmax₂⟩ : 8 ≤ nonce₂.length ∧ nonce₂.length ≤ 12 := h₂
  unfold openingFlags lengthWidth at h
  generalize aad₁.isEmpty = empty₁ at h ⊢
  generalize aad₂.isEmpty = empty₂ at h ⊢
  -- The widths differ by less than eight, and all that stands above them by
  -- no less.
  cases empty₁ <;> cases empty₂ <;> simp at h ⊢ <;> omega

/-- The flags fit their byte, for every tag length of the mode. Without
this the byte would be a remainder, and two flags could look alike. -/
theorem openingFlags_lt {tagLength : Nat} (htag : tagLength ∈ tagLengths)
    (nonce aad : Bytes) :
    openingFlags tagLength nonce aad < 256 := by
  have hmax : ∀ t ∈ tagLengths, (t - 2) / 2 ≤ 7 := by decide
  have hle := hmax tagLength htag
  unfold openingFlags lengthWidth
  split <;> omega

/-- **The opening block determines the nonce**, whether there is
associated data, and the length of the message as far as its width goes.
The flags are read first, and with them the width is known. -/
theorem openingBlock_inj {tagLength : Nat} (htag : tagLength ∈ tagLengths)
    {nonce₁ nonce₂ aad₁ aad₂ : Bytes} {n₁ n₂ : Nat}
    (h₁ : Mode.ccm.TakesNonce nonce₁) (h₂ : Mode.ccm.TakesNonce nonce₂)
    (h : openingBlock tagLength nonce₁ aad₁ n₁
        = openingBlock tagLength nonce₂ aad₂ n₂) :
    nonce₁ = nonce₂ ∧ aad₁.isEmpty = aad₂.isEmpty
      ∧ n₁ ≡ n₂ [MOD 256 ^ lengthWidth nonce₁] := by
  have hle₁ : nonce₁.length ≤ 15 := h₁.2.trans (by decide)
  have hle₂ : nonce₂.length ≤ 15 := h₂.2.trans (by decide)
  obtain ⟨hlength, haad⟩ :=
    openingFlags_inj h₁ h₂ <| flags_eq_of_nonceBlock_eq hle₁ hle₂
    (openingFlags_lt htag nonce₁ aad₁) (openingFlags_lt htag nonce₂ aad₂) h
  obtain ⟨hnonce, hnumber⟩ := nonceBlock_inj hle₁ hle₂ hlength h
  exact ⟨hnonce, haad, hnumber⟩

/-! ## The header of the associated data -/

/-- **The length that a header says**, read from the front of a byte
string. The first two bytes are a short length themselves, or tell which
of the two longer forms follows. It is the inverse of writing a header,
and does not look beyond it. -/
def readAadLength (bytes : Bytes) : Nat :=
  let mark := Bytes.ofBigEndian (bytes.take 2)
  if mark < 0xFF00 then mark
  else Bytes.ofBigEndian ((bytes.drop 2).take (if mark = 0xFFFE then 4 else 8))

/-- **A header is read back**, whatever comes after it. The three forms
are three cases, and the mark tells them apart. -/
theorem readAadLength_aadHeader {n : Nat} (hn : n < 2 ^ 64) (rest : Bytes) :
    readAadLength (aadHeader n ++ rest) = n := by
  have hread {w : Nat} (hw : n < 256 ^ w) :
      Bytes.ofBigEndian ((Bytes.bigEndian w n ++ rest).take w) = n := by
    rw [List.take_left' (Bytes.length_bigEndian w n),
      Bytes.ofBigEndian_bigEndian,
      Nat.mod_eq_of_lt hw]
  unfold aadHeader
  by_cases hshort : n < 0xFF00
  · rw [if_pos hshort]
    unfold readAadLength
    rw [hread (hshort.trans (by decide)), if_pos hshort]
  · rw [if_neg hshort]
    by_cases hmedium : n < 0x100000000
    · rw [if_pos hmedium]
      exact hread hmedium
    · rw [if_neg hmedium]
      exact hread hn

/-- **No header begins another**, nor do headers with something after
them. They are read back from the front, and so they say the same
length. -/
theorem aadHeader_append_prefix_inj {m n : Nat} {x y : Bytes} (hm : m < 2 ^ 64)
    (hn : n < 2 ^ 64) (h : aadHeader m ++ x <+: aadHeader n ++ y) : m = n := by
  obtain ⟨rest, hrest⟩ := h
  rw [List.append_assoc] at hrest
  have hread := congrArg readAadLength hrest
  rwa [readAadLength_aadHeader hm, readAadLength_aadHeader hn] at hread

/-! ## The blocks of a message -/

/-- The bytes of associated data in the authenticated input. It is
filled up at its end only, behind the data. -/
theorem flatMap_toBytes_aadBlocks {aad : Bytes} (h : aad.isEmpty = false) :
    (aadBlocks aad).flatMap Block.toBytes
      = Block.padded (aadHeader aad.length ++ aad) := by
  rw [aadBlocks, h, if_neg Bool.false_ne_true, Block.flatMap_toBytes_split]

/-- **Behind equal opening blocks the associated data is the same**, and
what comes after it goes on from the same place. The header tells where
the data ends. -/
theorem aadBlocks_prefix_inj {aad₁ aad₂ : Bytes} {x y : List Block}
    (hempty : aad₁.isEmpty = aad₂.isEmpty) (h₁ : aad₁.length < 2 ^ 64)
    (h₂ : aad₂.length < 2 ^ 64)
    (h : aadBlocks aad₁ ++ x <+: aadBlocks aad₂ ++ y) :
    aad₁ = aad₂ ∧ x <+: y := by
  have haad : aad₁ = aad₂ := by
    cases hsome : aad₁.isEmpty with
    | true =>
      rw [List.isEmpty_iff.mp hsome,
        List.isEmpty_iff.mp (hempty.symm.trans hsome)]
    | false =>
      have hbytes := h.flatMap Block.toBytes
      rw [List.flatMap_append, List.flatMap_append,
        flatMap_toBytes_aadBlocks hsome,
        flatMap_toBytes_aadBlocks (hempty.symm.trans hsome)] at hbytes
      unfold Block.padded at hbytes
      simp only [List.append_assoc] at hbytes
      have hlength := aadHeader_append_prefix_inj h₁ h₂ hbytes
      rw [hlength, List.prefix_append_right_inj] at hbytes
      exact (Bytes.eq_of_append_prefix_append hlength hbytes).1
  subst haad
  exact ⟨rfl, (List.prefix_append_right_inj _).mp h⟩

/-- Messages of one length are told apart by their blocks. Without the
length this would be wrong, since the last block is filled up. -/
theorem split_prefix_inj {a b : Bytes} (hlength : a.length = b.length)
    (h : Block.split a <+: Block.split b) : a = b := by
  have hbytes := h.flatMap Block.toBytes
  rw [Block.flatMap_toBytes_split, Block.flatMap_toBytes_split] at hbytes
  exact (Bytes.eq_of_append_prefix_append hlength hbytes).1

/-- **What the mode takes**: a nonce of one of its lengths, associated
data whose length can be written, and a message whose length fits the
width that the nonce leaves for it. The bounds are those that the mode
itself sets. -/
structure Message.Fits (m : Message) : Prop where
  /-- The nonce is one of the mode's. -/
  nonce : minNonceLength ≤ m.nonce.length ∧ m.nonce.length ≤ maxNonceLength
  /-- The length of the associated data has at most eight bytes. -/
  aad : m.aad.length < 2 ^ 64
  /-- The length of the message has at most as many bytes as are left. -/
  plaintext : m.plaintext.length < 2 ^ (8 * (15 - m.nonce.length))

/-- **No authenticated input begins another.** The tag of a message is
made of the chain over its blocks. Of two messages with tags of one
length, the first block alone determines the nonce; and if the blocks of
one are those of the other, or their beginning, then nonce, associated
data and message are the same. -/
theorem macBlocks_prefix_inj (tagLength : Nat) (htag : tagLength ∈ tagLengths)
    (m₁ m₂ : Message) (h₁ : m₁.Fits) (h₂ : m₂.Fits) :
    let blocks (m : Message) := macBlocks tagLength m.nonce m.aad m.plaintext
    (∀ c : Ccm, c.tagLength = tagLength → ∀ m ∈ c.message?, c.tag tagLength
        = .ok (((CbcMac.ofBlocks c.cipher.encrypt (blocks m)).xor
            (c.cipher.encrypt (counterBlock m.nonce 0))).toBytes.take
              tagLength))
      ∧ ((blocks m₁).head? = (blocks m₂).head? → m₁.nonce = m₂.nonce)
      ∧ (blocks m₁ <+: blocks m₂ →
          m₁.nonce = m₂.nonce ∧ m₁.aad = m₂.aad
            ∧ m₁.plaintext = m₂.plaintext) := by
  intro blocks
  refine ⟨fun c hc m hm => ?_, fun hhead => ?_, fun hprefix => ?_⟩
  · subst hc
    rw [Option.mem_def] at hm
    unfold Ccm.tag
    simp only [hm, ne_eq, not_true_eq_false, if_false, m.mac_eq]
    rfl
  · have hopening := Option.some.inj hhead
    exact (openingBlock_inj htag h₁.nonce h₂.nonce hopening).1
  · obtain ⟨hopening, hrest⟩ := List.cons_prefix_cons.mp hprefix
    obtain ⟨hnonce, hempty, hmod⟩ :=
      openingBlock_inj htag h₁.nonce h₂.nonce hopening
    have hwidth : 256 ^ lengthWidth m₁.nonce
      = 2 ^ (8 * (15 - m₁.nonce.length)) := by
      rw [Nat.pow_mul]
      rfl
    have hlength : m₁.plaintext.length = m₂.plaintext.length :=
      hmod.eq_of_lt_of_lt (hwidth ▸ h₁.plaintext)
        (hwidth ▸ hnonce ▸ h₂.plaintext)
    obtain ⟨haad, hmessage⟩ := aadBlocks_prefix_inj hempty h₁.aad h₂.aad hrest
    exact ⟨hnonce, haad, split_prefix_inj hlength hmessage⟩

/-- Two messages that differ in one byte of associated data, which is
where its length takes up more room: neither begins the other. The
lengths are the last one that takes two bytes and the first one that
takes six. -/
theorem macBlocks_prefix_inj_at_longer_header :
    let blocks (n : Nat) := macBlocks 16 (Bytes.zeros 8) (Bytes.zeros n) [1]
    ¬blocks 0xFEFF <+: blocks 0xFF00 ∧ ¬blocks 0xFF00 <+: blocks 0xFEFF := by
  let message (n : Nat) : Message :=
    ⟨Bytes.zeros 8, Keystream.start Block.zero, Bytes.zeros n, [1]⟩
  have hnonce : minNonceLength ≤ (Bytes.zeros 8).length
      ∧ (Bytes.zeros 8).length ≤ maxNonceLength := by decide
  have hplaintext : ([1] : Bytes).length
    < 2 ^ (8 * (15 - (Bytes.zeros 8).length)) := by decide
  have hfits {n : Nat} (hn : n < 2 ^ 64) : (message n).Fits :=
    ⟨hnonce, (Bytes.length_zeros n).symm ▸ hn, hplaintext⟩
  have hne : Bytes.zeros 0xFEFF ≠ Bytes.zeros 0xFF00 := fun h => by
    have hlength := congrArg List.length h
    rw [Bytes.length_zeros, Bytes.length_zeros] at hlength
    exact absurd hlength (by decide)
  have hshort : (message 0xFEFF).Fits := hfits (by decide)
  have hlong : (message 0xFF00).Fits := hfits (by decide)
  exact ⟨fun h =>
    hne ((macBlocks_prefix_inj 16 (by decide) _ _ hshort hlong).2.2 h).2.1,
    fun h => hne
      ((macBlocks_prefix_inj 16 (by decide) _ _ hlong hshort).2.2 h).2.1.symm⟩

end Aead.Ccm

end Strongbox
