import Strongbox.Proofs.Aead.CounterBlocks
import Strongbox.Proofs.Aead.Transcript
import Strongbox.Proofs.CbcMac

/-!
# What a stream in counter with CBC-MAC mode holds

`Ccm.Holds` is the invariant of the mode. It is simpler than that of
Galois/counter mode, because a stream keeps the associated data and the
plaintext as they are until a tag is asked for: what there is to say is
that they are those of the transcript, and that the keystream stands
where the message ends.

The work is in the tag. `Message.mac_eq` follows the bytes of the
opening block, of the associated data behind its header and of the
plaintext into the chain, with a boundary after each, and finds the
blocks that the format lists.

* `Keyed` is what holds without a nonce as well: the cipher and the tag
  length fixed by the constructor. `Keyed.reset` says that a reset reads
  nothing else.
* `Holds.opened`, `Holds.authenticate` and `Holds.transform` are the
  step lemmas, in the same form as for the other mode, so that both can
  be used side by side.
* `Holds.tag` puts `Message.mac_eq` under the mask of counter block zero
  and cuts the result to the length fixed for the stream.

Associated data may still be given after an empty piece of the message
in this mode, because nothing has been chained by then; the refusals of
the transcript say so, and the step lemmas confirm it.
-/

namespace Strongbox.Aead.Ccm

/-- **The stream belongs to a key** and to a tag length. Both are fixed
by the constructor, and no call changes either. -/
structure Keyed (cipher : BlockCipher) (tagLength : Nat) (c : Ccm) : Prop where
  /-- The stream encrypts with this cipher. -/
  cipher_eq : c.cipher = cipher
  /-- The stream makes tags of this length. -/
  tagLength_eq : c.tagLength = tagLength

/-- **The stream after a nonce**, whatever was before it: the key, the
tag length and a message of which nothing has been given. -/
def opened (cipher : BlockCipher) (tagLength : Nat) (nonce : Bytes) : Ccm where
  cipher
  tagLength
  message? := some (Message.start nonce)

/-- **What a stream holds** of a message that has come to a transcript:
the two texts as they are, and a keystream spent as far as the message
goes. -/
structure Holds (cipher : BlockCipher) (tagLength : Nat) (t : Transcript)
    (c : Ccm) : Prop where
  /-- The transcript is one that can arise. -/
  sound : t.Sound .ccm cipher.encrypt
  /-- The stream belongs to this cipher and this tag length. -/
  keyed : Keyed cipher tagLength c
  /-- The message is that of the transcript, and the keystream has been
  spent as far as it goes. -/
  message : ∃ keystream : Keystream,
    c.message? = some ⟨t.nonce, keystream, t.aad, t.plaintext⟩
      ∧ Keystream.After cipher.encrypt (nextCounter t.nonce)
        (counterBlock t.nonce 1) t.plaintext.length keystream

variable {cipher : BlockCipher} {tagLength : Nat} {t : Transcript} {c : Ccm}

/-! ## The nonce -/

/-- **A reset forgets all but the key and the tag length.** It is
refused for a nonce shorter than eight or longer than twelve bytes, and
for no other reason. -/
theorem Keyed.reset (h : Keyed cipher tagLength c) (nonce : Bytes) :
    Settles (Mode.ccm.nonceRefusal? nonce) (· = opened cipher tagLength nonce)
      (c.reset nonce) := by
  unfold Ccm.reset
  by_cases hn : Mode.ccm.TakesNonce nonce
  · have hn' :
      ¬(nonce.length < minNonceLength ∨ maxNonceLength < nonce.length) := by
      rintro (hlt | hgt)
      · exact Nat.not_le_of_lt hlt hn.1
      · exact Nat.not_le_of_lt hgt hn.2
    rw [if_neg hn', show Mode.ccm.nonceRefusal? nonce = none from if_pos hn]
    refine ⟨_, rfl, ?_⟩
    rw [h.cipher_eq, h.tagLength_eq]
    rfl
  · have hn' : nonce.length < minNonceLength
      ∨ maxNonceLength < nonce.length := by
      by_cases hlt : nonce.length < minNonceLength
      · exact Or.inl hlt
      · exact Or.inr
          (Nat.lt_of_not_le fun hle => hn ⟨Nat.le_of_not_lt hlt, hle⟩)
    rw [if_pos hn',
      show Mode.ccm.nonceRefusal? nonce = some (.nonceLength nonce.length) from
      if_neg hn]
    rfl

/-- After a nonce nothing has been given: the stream holds the message
of the empty transcript. -/
theorem Holds.opened {nonce : Bytes} (h : Mode.ccm.TakesNonce nonce) :
    Holds cipher tagLength (Transcript.start nonce)
      (opened cipher tagLength nonce) where
  sound := Transcript.Sound.start h
  keyed := ⟨rfl, rfl⟩
  message := ⟨_, rfl, Keystream.After.start _ _ _⟩

/-! ## Associated data and message -/

/-- **More associated data.** It is refused once a byte of the message
has been transformed; an empty piece does not close the associated data
in this mode, and there is no limit on their length. -/
theorem Holds.authenticate (h : Holds cipher tagLength t c) (data : Bytes) :
    Settles (t.aadRefusal? .ccm data.length)
      (Holds cipher tagLength (t.authenticate data))
      (c.authenticate data) := by
  obtain ⟨keystream, hm, hk⟩ := h.message
  unfold Ccm.authenticate
  simp only [hm]
  by_cases he : t.plaintext.isEmpty
  · have hr : t.aadRefusal? .ccm data.length = none := if_pos he
    rw [hr, if_neg (by simp [he])]
    exact ⟨_, rfl, h.sound.authenticate hr,
      ⟨h.keyed.cipher_eq, h.keyed.tagLength_eq⟩,
      keystream, rfl, hk⟩
  · rw [show t.aadRefusal? .ccm data.length
      = some .aadAfterMessage from if_neg he,
      if_pos (by simpa using he)]
    rfl

/-- **The next piece of the message.** It is refused when the message
would pass what the counter of this nonce can number. Otherwise the
result is the piece under the keystream from where the message stands,
and the plaintext side of it is kept for the tag. -/
theorem Holds.transform (h : Holds cipher tagLength t c) (direction : Direction)
    (piece : Bytes) :
    Settles (t.messageRefusal? .ccm piece.length)
      (fun out => out.1 = t.crypt .ccm cipher.encrypt piece
        ∧ Holds cipher tagLength
            (t.transform direction piece (t.crypt .ccm cipher.encrypt piece))
              out.2)
      (c.transform direction piece) := by
  obtain ⟨keystream, hm, hk⟩ := h.message
  unfold Ccm.transform
  simp only [hm, h.keyed.cipher_eq]
  by_cases hl : t.plaintext.length + piece.length > maxMessageLength t.nonce
  · rw [if_pos hl,
      show t.messageRefusal? .ccm piece.length
        = some .messageTooLong from if_pos hl]
    rfl
  · have hr : t.messageRefusal? .ccm piece.length = none := if_neg hl
    have hout : (keystream.apply cipher.encrypt (nextCounter t.nonce) piece).1
        = t.crypt .ccm cipher.encrypt piece := hk.apply_eq piece
    have hnext := (hk.apply _ _ piece).2
    have hlength := t.length_plaintext_transform direction
      (t.length_crypt .ccm cipher.encrypt piece)
    rw [if_neg hl, hr, hout]
    refine ⟨_, rfl, rfl, h.sound.transform direction hr,
      ⟨rfl, h.keyed.tagLength_eq⟩,
      (keystream.apply cipher.encrypt (nextCounter t.nonce) piece).2, ?_, ?_⟩
    · rw [Transcript.nonce_transform, Transcript.aad_transform]
      cases direction with
      | encrypt => rfl
      | decrypt => rfl
    · rw [Transcript.nonce_transform, hlength]
      exact hnext

/-- Associated data leave the key and the tag length alone, with a nonce
set or without. -/
theorem Keyed.of_authenticate (h : Keyed cipher tagLength c) {data : Bytes}
    {c' : Ccm} (hc : c.authenticate data = .ok c') :
    Keyed cipher tagLength c' := by
  unfold Ccm.authenticate at hc
  split at hc
  · cases hc
  · split at hc
    · cases hc
    · cases hc
      exact ⟨h.cipher_eq, h.tagLength_eq⟩

/-- A piece of the message leaves the key and the tag length alone, with
a nonce set or without. -/
theorem Keyed.of_transform (h : Keyed cipher tagLength c)
    {direction : Direction} {piece : Bytes} {out : Bytes × Ccm}
    (hc : c.transform direction piece = .ok out) :
    Keyed cipher tagLength out.2 := by
  unfold Ccm.transform at hc
  split at hc
  · cases hc
  · split at hc
    · cases hc
    · cases hc
      exact ⟨h.cipher_eq, h.tagLength_eq⟩

/-! ## The tag -/

/-- **The chain over a message** is the chain over the blocks of its
format. The stream feeds bytes and marks boundaries; the format lists
blocks, each text completed with zeros. That the two agree is the
invariant of the chain, followed through three boundaries. -/
theorem Message.mac_eq (m : Message) (cipher : Block → Block)
    (tagLength : Nat) :
    m.mac cipher tagLength
      = CbcMac.ofBlocks cipher
        (macBlocks tagLength m.nonce m.aad m.plaintext) := by
  unfold Message.mac macBlocks
  generalize openingBlock tagLength m.nonce m.aad m.plaintext.length = opening
  -- Sixteen bytes: the chain is at a boundary without padding.
  have hopening :
    CbcMac.Holds cipher [opening] []
      (CbcMac.start.absorb cipher opening.toBytes) := by
    have hne : opening.toBytes ≠ [] := by
      intro hnil
      have hlen := opening.length_toBytes
      rw [hnil] at hlen
      exact absurd hlen (by decide)
    have hbytes := (CbcMac.Holds.start cipher).absorb opening.toBytes
    have hblock := hbytes.aligned (by simp)
    rwa [List.nil_append, List.nil_append,
      Block.split_of_length_le hne (by simp),
      Block.ofBytes_toBytes] at hblock
  have haad : CbcMac.Holds cipher ([opening] ++ aadBlocks m.aad) []
      (if m.aad.isEmpty then CbcMac.start.absorb cipher opening.toBytes
        else (((CbcMac.start.absorb cipher opening.toBytes).absorb cipher
          (aadHeader m.aad.length)).absorb cipher m.aad).pad cipher) := by
    unfold aadBlocks
    split
    · exact hopening
    · have hpad := ((hopening.absorb (aadHeader m.aad.length)).absorb m.aad).pad
      rwa [List.nil_append] at hpad
  have hmessage := (haad.absorb m.plaintext).pad
  rw [List.nil_append] at hmessage
  rw [hmessage.chain_eq, List.append_assoc]
  rfl

/-- **A tag of the length fixed for the stream**, and of no other: the
chain over the blocks of the format under the mask of counter block
zero, cut to that length. -/
theorem Holds.tag (h : Holds cipher tagLength t c) (n : Nat) :
    Settles (Transcript.tagRefusal? .ccm tagLength n)
      (· = (t.tag .ccm cipher.encrypt tagLength).toBytes.take n) (c.tag n) := by
  obtain ⟨keystream, hm, -⟩ := h.message
  have htag : t.tag .ccm cipher.encrypt tagLength
      = (CbcMac.ofBlocks cipher.encrypt
          (macBlocks tagLength t.nonce t.aad t.plaintext)).xor
            (cipher.encrypt (counterBlock t.nonce 0)) :=
    OneShot.tag_eq cipher.encrypt tagLength t.nonce t.aad t.plaintext
  unfold Ccm.tag
  simp only [hm, h.keyed.tagLength_eq, h.keyed.cipher_eq, Message.mac_eq]
  rw [htag]
  by_cases hn : n = tagLength
  · rw [if_neg (by simpa using hn),
      show Transcript.tagRefusal? .ccm tagLength n = none from
      if_pos hn]
    exact ⟨_, rfl, rfl⟩
  · rw [if_pos hn,
      show Transcript.tagRefusal? .ccm tagLength n = some (.tagLength n) from
      if_neg hn]
    rfl

end Strongbox.Aead.Ccm
