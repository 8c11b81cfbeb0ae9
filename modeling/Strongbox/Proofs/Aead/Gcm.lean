import Strongbox.Proofs.Aead.Transcript
import Strongbox.Proofs.Ghash

/-!
# What a stream in Galois/counter mode holds

`Gcm.Holds` is the invariant of the mode: the state of a stream whose
message has come to a transcript. The keystream stands where the message
ends, the hash has taken in the associated data and – once the message
has begun – the ciphertext after it, and the lengths are those of the
transcript. Which of the two hash conditions is in force is decided by
`begun`, since one pending block serves both and is completed between
them.

`Keyed` is the weaker invariant that holds before any nonce as well:
what a reset reads. `Keyed.reset` says that a reset reads nothing else,
and the other theorems say of each call that it is refused exactly as
the transcript says, and otherwise leaves the invariant with what was
given added to the transcript.

* `startBlock_eq` and `beginMessage_eq` restate two steps of the stream
  in the terms of the invariant: the hash of the nonce in one piece, and
  the completion of the pending block as a conditional that changes one
  field.
* `Holds.opened`, `Holds.authenticate` and `Holds.transform` are the
  step lemmas. Each settles its call – says when it is refused, with
  which reason – and gives the invariant of the longer transcript.
* `Holds.fullTag` is where the two hash conditions meet: whether the
  message has begun or not, completing the pending block and adding the
  lengths gives the digest of all blocks of both.

Nothing here is about runs; the induction over the calls is made once
for both modes, in the module on streams.
-/

namespace Strongbox.Aead.Gcm

/-- **The stream belongs to a key**: its cipher, and the hash key made
of it. It holds from the constructor on, before any nonce, and no call
undoes it. -/
structure Keyed (cipher : BlockCipher) (g : Gcm) : Prop where
  /-- The stream encrypts with this cipher. -/
  cipher_eq : g.cipher = cipher
  /-- The stream hashes under the encrypted zero block. -/
  key_eq : g.hash.key = OneShot.hashKey cipher.encrypt

/-- **The stream after a nonce**, whatever was before it. Every field
but the cipher is made anew from the nonce, which is why a reset
forgets. -/
def opened (cipher : BlockCipher) (nonce : Bytes) : Gcm where
  cipher
  origin := OneShot.origin cipher.encrypt nonce
  keystream :=
    Keystream.start (nextCounter (OneShot.origin cipher.encrypt nonce))
  hash := Ghash.start (OneShot.hashKey cipher.encrypt)
  aadLength := 0
  messageLength := 0
  inMessage := false

/-- **What a stream holds** of a message that has come to a transcript.
The fields are those of the stream, one by one, each with its value or
its invariant; a stream for which they hold owes nothing to the calls in
any other way. -/
structure Holds (cipher : BlockCipher) (t : Transcript) (g : Gcm) : Prop where
  /-- The transcript is one that can arise. -/
  sound : t.Sound .gcm cipher.encrypt
  /-- The stream encrypts with this cipher. -/
  cipher_eq : g.cipher = cipher
  /-- The tag mask is made of the start block of the nonce. -/
  origin_eq : g.origin = OneShot.origin cipher.encrypt t.nonce
  /-- The keystream has been spent as far as the message goes. -/
  keystream : Keystream.After cipher.encrypt nextCounter
    (nextCounter (OneShot.origin cipher.encrypt t.nonce)) t.plaintext.length
    g.keystream
  /-- Before the message begins, the hash has taken in associated data. -/
  aadHash : t.begun = false
    → Ghash.Holds (OneShot.hashKey cipher.encrypt) [] t.aad g.hash
  /-- After it has begun, the ciphertext behind whole blocks of them. -/
  messageHash : t.begun = true →
    Ghash.Holds (OneShot.hashKey cipher.encrypt) (Block.split t.aad)
      t.ciphertext g.hash
  /-- The length of the associated data is kept. -/
  aadLength_eq : g.aadLength = t.aad.length
  /-- The length of the message is kept. -/
  messageLength_eq : g.messageLength = t.plaintext.length
  /-- Whether the message has begun is kept. -/
  inMessage_eq : g.inMessage = t.begun

variable {cipher : BlockCipher} {t : Transcript} {g : Gcm}

/-- A stream that holds a message belongs to its key: the hash key is
the encrypted zero block in both hash conditions, and one of the two is
in force. -/
theorem Holds.keyed (h : Holds cipher t g) : Keyed cipher g where
  cipher_eq := h.cipher_eq
  key_eq := by
    cases hb : t.begun with
    | false => exact (h.aadHash hb).keyed
    | true => exact (h.messageHash hb).keyed

/-! ## The nonce -/

/-- The start block is the hash of the nonce as one piece. A nonce of
the natural length is taken as it is in both, and any other is absorbed,
completed and closed with its length. -/
theorem startBlock_eq (cipher : BlockCipher) (nonce : Bytes) :
    startBlock (OneShot.hashKey cipher.encrypt) nonce
      = OneShot.origin cipher.encrypt nonce := by
  unfold startBlock
  by_cases hn : nonce.length = nonceLength
  · rw [if_pos hn, OneShot.origin, if_pos (show nonce.length = 12 from hn)]
    rfl
  · rw [if_neg hn, OneShot.origin_of_ne _ hn]
    have hnonce :=
      (Ghash.Holds.start (OneShot.hashKey cipher.encrypt)).absorb nonce
    exact hnonce.digest (lengthBlock 0 nonce.length)

/-- **A reset forgets all but the key.** It is refused for an empty
nonce and for no other reason, and otherwise leaves the same stream
whatever was there before. -/
theorem Keyed.reset (h : Keyed cipher g) (nonce : Bytes) :
    Settles (Mode.gcm.nonceRefusal? nonce) (· = opened cipher nonce)
      (g.reset nonce) := by
  unfold Gcm.reset
  by_cases hn : nonce = []
  · subst hn
    rfl
  · rw [if_neg (by simpa using hn),
      show Mode.gcm.nonceRefusal? nonce = none from if_pos hn]
    refine ⟨_, rfl, ?_⟩
    simp only [h.cipher_eq, h.key_eq, startBlock_eq]
    rfl

/-- After a nonce nothing has been given: the stream holds the message
of the empty transcript. -/
theorem Holds.opened {nonce : Bytes} (h : nonce ≠ []) :
    Holds cipher (Transcript.start nonce) (opened cipher nonce) where
  sound := Transcript.Sound.start h
  cipher_eq := rfl
  origin_eq := rfl
  keystream := Keystream.After.start _ _ _
  aadHash _ := Ghash.Holds.start _
  messageHash hb := Bool.noConfusion hb
  aadLength_eq := rfl
  messageLength_eq := rfl
  inMessage_eq := rfl

/-! ## Associated data -/

/-- **More associated data.** It is refused once a transform was made or
when it would pass the limit, and otherwise the hash takes it in behind
what there was, in whatever pieces it comes. -/
theorem Holds.authenticate (h : Holds cipher t g) (data : Bytes) :
    Settles (t.aadRefusal? .gcm data.length)
      (Holds cipher (t.authenticate data))
      (g.authenticate data) := by
  unfold Gcm.authenticate
  rw [h.inMessage_eq, h.aadLength_eq]
  by_cases hb : t.begun = true
  · rw [if_pos hb,
      show t.aadRefusal? .gcm data.length
        = some .aadAfterMessage from if_pos hb]
    rfl
  · rw [if_neg hb]
    by_cases hl : t.aad.length + data.length > maxAadLength
    · rw [if_pos hl, show t.aadRefusal? .gcm data.length = some .aadTooLong from
        (if_neg hb).trans (if_pos hl)]
      rfl
    · have hb : t.begun = false := by simpa using hb
      have hr : t.aadRefusal? .gcm data.length = none :=
        Transcript.aadRefusal?_gcm_eq_none_iff.mpr ⟨hb, Nat.le_of_not_lt hl⟩
      rw [if_neg hl, hr]
      refine ⟨_, rfl, h.sound.authenticate hr, h.cipher_eq, h.origin_eq,
        h.keystream,
        fun _ => (h.aadHash hb).absorb data, fun hb' => ?_, ?_,
        h.messageLength_eq, rfl⟩
      · exact Bool.noConfusion (hb.symm.trans hb')
      · exact (List.length_append).symm

/-- Associated data leaves the key alone, with a nonce set or without:
what is needed where no transcript speaks. -/
theorem Keyed.of_authenticate (h : Keyed cipher g) {data : Bytes} {g' : Gcm}
    (hg : g.authenticate data = .ok g') : Keyed cipher g' := by
  unfold Gcm.authenticate at hg
  split at hg
  · cases hg
  · split at hg
    · cases hg
    · cases hg
      exact ⟨h.cipher_eq, (g.hash.key_absorb data).trans h.key_eq⟩

/-! ## The message -/

/-- Beginning the message changes nothing but the hash and the mark that
it has begun, and nothing at all when the message has begun already. -/
theorem beginMessage_eq (g : Gcm) :
    g.beginMessage
      = { g with
          hash := if g.inMessage then g.hash else g.hash.flush
          inMessage := true } := by
  obtain ⟨cipher, origin, keystream, hash, aadLength, messageLength,
    inMessage⟩ := g
  cases inMessage <;> rfl

/-- With the message begun, the hash stands behind whole blocks of
associated data: completing the pending block is what turns the first
hash condition into the second. -/
theorem Holds.begunHash (h : Holds cipher t g) :
    Ghash.Holds (OneShot.hashKey cipher.encrypt) (Block.split t.aad)
      t.ciphertext
      (if g.inMessage then g.hash else g.hash.flush) := by
  rw [h.inMessage_eq]
  cases hb : t.begun with
  | true => exact h.messageHash hb
  | false =>
    have hnil : t.ciphertext = [] := by
      rw [h.sound.ciphertext, h.sound.unbegun hb, Keystream.under_nil]
    rw [hnil]
    exact (h.aadHash hb).flush

/-- **The next piece of the message.** It is refused when the message
would pass the limit. Otherwise the result is the piece under the
keystream from where the message stands, and the stream holds the longer
message, with the ciphertext side of the piece in the hash. -/
theorem Holds.transform (h : Holds cipher t g) (direction : Direction)
    (piece : Bytes) :
    Settles (t.messageRefusal? .gcm piece.length)
      (fun out => out.1 = t.crypt .gcm cipher.encrypt piece
        ∧ Holds cipher
          (t.transform direction piece (t.crypt .gcm cipher.encrypt piece))
          out.2)
      (g.transform direction piece) := by
  unfold Gcm.transform
  rw [h.messageLength_eq]
  by_cases hl : t.plaintext.length + piece.length > maxMessageLength
  · rw [if_pos hl,
      show t.messageRefusal? .gcm piece.length
        = some .messageTooLong from if_pos hl]
    rfl
  · have hr : t.messageRefusal? .gcm piece.length = none := if_neg hl
    have hout : (g.keystream.apply cipher.encrypt nextCounter piece).1
        = t.crypt .gcm cipher.encrypt piece := h.keystream.apply_eq piece
    have hnext := (h.keystream.apply _ _ piece).2
    have hhash := h.begunHash
    rw [if_neg hl, hr, beginMessage_eq]
    simp only [h.cipher_eq, hout]
    have hlength := t.length_plaintext_transform direction
      (t.length_crypt .gcm cipher.encrypt piece)
    refine ⟨_, rfl, rfl, h.sound.transform direction hr, rfl, ?_, ?_, ?_, ?_,
      ?_, ?_, ?_⟩
    · rw [Transcript.nonce_transform]
      exact h.origin_eq
    · rw [Transcript.nonce_transform, hlength]
      exact hnext
    · rw [Transcript.begun_transform]
      exact fun hb => Bool.noConfusion hb
    · -- what comes out of an encryption and what goes into a decryption
      rw [Transcript.aad_transform]
      cases direction with
      | encrypt => exact fun _ => hhash.absorb _
      | decrypt => exact fun _ => hhash.absorb _
    · rw [Transcript.aad_transform]
      exact h.aadLength_eq
    · rw [hlength]
      exact congrArg (· + piece.length) h.messageLength_eq
    · rw [Transcript.begun_transform]

/-- A piece of the message leaves the key alone, with a nonce set or
without. -/
theorem Keyed.of_transform (h : Keyed cipher g) {direction : Direction}
    {piece : Bytes} {out : Bytes × Gcm}
    (hg : g.transform direction piece = .ok out) : Keyed cipher out.2 := by
  unfold Gcm.transform at hg
  rw [beginMessage_eq] at hg
  split at hg
  · cases hg
  · cases hg
    refine ⟨h.cipher_eq, (Ghash.key_absorb _ _).trans ?_⟩
    show (if g.inMessage then g.hash else g.hash.flush).key = _
    split
    · exact h.key_eq
    · exact g.hash.key_flush.trans h.key_eq

/-! ## The tag -/

/-- **The tag of the message so far** is the tag of its transcript: the
digest of both texts, each completed with zeros, and of the two lengths,
under the mask of the start block. -/
theorem Holds.fullTag (h : Holds cipher t g) (tagLength : Nat) :
    g.fullTag = t.tag .gcm cipher.encrypt tagLength := by
  have hdigest : g.hash.digest (lengthBlock t.aad.length t.ciphertext.length)
      = OneShot.authenticator cipher.encrypt t.aad t.ciphertext := by
    cases hb : t.begun with
    | true => exact (h.messageHash hb).digest _
    | false =>
      -- the tag itself completes the associated data, and there is no message
      have hnil : t.ciphertext = [] := by
        rw [h.sound.ciphertext, h.sound.unbegun hb, Keystream.under_nil]
      rw [(h.aadHash hb).digest, hnil, OneShot.authenticator, Block.split_nil,
        List.append_nil]
      rfl
  unfold Gcm.fullTag
  rw [h.cipher_eq, h.origin_eq, h.aadLength_eq, h.messageLength_eq,
    ← h.sound.length, hdigest]
  rfl

/-- **A tag of some length** is that many first bytes of the whole tag,
for one to sixteen bytes, and is refused for its length otherwise. -/
theorem Holds.tag (h : Holds cipher t g) (tagLength n : Nat) :
    Settles (Transcript.tagRefusal? .gcm tagLength n)
      (· = (t.tag .gcm cipher.encrypt tagLength).toBytes.take n) (g.tag n) := by
  unfold Gcm.tag
  by_cases hn : Mode.gcm.TakesTag tagLength n
  · have hn' : ¬(n = 0 ∨ n > maxTagLength) := by
      rintro (h0 | hgt)
      · exact absurd hn.1 (by omega)
      · exact absurd hn.2 (by omega)
    rw [if_neg hn', Transcript.tagRefusal?_eq_none_iff.mpr hn,
      h.fullTag tagLength]
    exact ⟨_, rfl, rfl⟩
  · have hn' : n = 0 ∨ n > maxTagLength := by
      by_cases h0 : n = 0
      · exact Or.inl h0
      · exact Or.inr
          (Nat.lt_of_not_le fun hle => hn ⟨Nat.one_le_iff_ne_zero.mpr h0, hle⟩)
    rw [if_pos hn',
      show Transcript.tagRefusal? .gcm tagLength n = some (.tagLength n) from
      if_neg hn]
    rfl

end Strongbox.Aead.Gcm
