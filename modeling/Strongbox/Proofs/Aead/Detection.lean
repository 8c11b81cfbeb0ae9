import Strongbox.Proofs.Aead.RoundTrip
import Strongbox.Proofs.Aes
import Strongbox.Proofs.Field128
import Strongbox.Proofs.OneApart

/-!
# A changed byte is detected

A message of which one byte has been changed – of its associated data or
of its ciphertext – does not have the tag that it had. The two modes
have different reasons, and a common one. Both cut what they
authenticate into blocks, where one byte is in one block, and both fold
the blocks into a chain that loses nothing: counter with CBC-MAC mode
because AES is injective under every key, Galois/counter mode because a
product with the hash key can be undone. The latter needs that the hash
key is not zero, which for a key that encrypts the zero block to itself
it is.

Between the byte and its block stand, in counter with CBC-MAC mode, a
header in front of the associated data, which depends on the length
only, and the decryption of the ciphertext, which keeps a difference in
its place.

`altered_byte_is_refused` says this of sessions: whatever a session has
been used for, and in whatever pieces it is given the changed message,
it answers the old tag with a failure.

* `Ghash.ofBlocks_ne` and `CbcMac.ofBlocks_ne` are the two reasons: what
  one step of the fold does can be undone, both in the block and in the
  value it is added to.
* `Gcm.OneShot.tag_ne` and `Ccm.OneShot.tag_ne` carry a changed byte
  from the two texts into the list of blocks.
* `Mode.sealTag_ne` has both modes, and the ciphertext in the place of
  the plaintext.
* `Delivery.exists_tag` connects the tag with what a session is given,
  in whatever pieces it comes.
-/

namespace Strongbox

namespace Block

theorem xor_right_injective (a : Block) : Function.Injective a.xor := by
  intro b c h
  refine Vector.ext fun i hi => ?_
  have hbyte := congrArg (·[i]) h
  simpa [getElem_xor] using hbyte

theorem xor_left_injective (b : Block) :
    Function.Injective fun a : Block => a.xor b := by
  intro a c h
  refine Vector.ext fun i hi => ?_
  have hbyte := congrArg (·[i]) h
  simpa [getElem_xor] using hbyte

end Block

/-- **A hash under a key that is not zero tells lists of blocks apart**
that differ in one. The field has no zero divisors, and so the step is
injective in the block and in the value before it. -/
theorem Ghash.ofBlocks_ne {key : Block} (hkey : key ≠ Block.zero)
    {a b : List Block} (h : OneApart a b) : ofBlocks key a ≠ ofBlocks key b :=
  h.foldl_ne
    (fun block =>
        (Block.mul_left_injective hkey).comp (Block.xor_left_injective block))
    (fun sum =>
        (Block.mul_left_injective hkey).comp (Block.xor_right_injective sum)) _

/-- **A chain through an injective cipher tells lists of blocks apart**
that differ in one: a difference that has got in is handed on by every
step. -/
theorem CbcMac.ofBlocks_ne {cipher : Block → Block}
    (hcipher : Function.Injective cipher) {a b : List Block}
    (h : OneApart a b) : ofBlocks cipher a ≠ ofBlocks cipher b :=
  h.foldl_ne (fun block => hcipher.comp (Block.xor_left_injective block))
    (fun chain => hcipher.comp (Block.xor_right_injective chain)) _

namespace Aead

/-- **One byte has been changed**: of the associated data, or of what
comes with it, but not of both. The lengths are not, which keeps the
headers and the closing block as they were. -/
def Altered (aad message aad' message' : Bytes) : Prop :=
  OneApart aad aad' ∧ message = message'
    ∨ aad = aad' ∧ OneApart message message'

/-- A changed byte leaves both lengths as they were. So the headers and
the length block are the same, and the difference is in one block of
text. -/
theorem Altered.length_eq {aad message aad' message' : Bytes}
    (h : Altered aad message aad' message') :
    aad.length = aad'.length ∧ message.length = message'.length := by
  obtain ⟨haad, rfl⟩ | ⟨rfl, hmessage⟩ := h
  · exact ⟨haad.length_eq, rfl⟩
  · exact ⟨rfl, hmessage.length_eq⟩

/-! ## The tags of the two modes -/

/-- **In Galois/counter mode a changed byte changes the whole tag** of
the ciphertext and its associated data, under a hash key that is not
zero. The mask is the same on both sides and drops out. -/
theorem Gcm.OneShot.tag_ne {cipher : Block → Block}
    (hkey : hashKey cipher ≠ Block.zero) (start : Block)
    {aad ciphertext aad' ciphertext' : Bytes}
    (h : Altered aad ciphertext aad' ciphertext') :
    tag cipher start aad ciphertext ≠ tag cipher start aad' ciphertext' := by
  have hblocks : OneApart
      (Block.split aad ++ Block.split ciphertext
          ++ [lengthBlock aad.length ciphertext.length])
      (Block.split aad' ++ Block.split ciphertext'
        ++ [lengthBlock aad'.length ciphertext'.length]) := by
    obtain ⟨haad, rfl⟩ | ⟨rfl, hciphertext⟩ := h
    · rw [haad.length_eq]
      exact (haad.split.append_right _).append_right _
    · rw [hciphertext.length_eq]
      exact (hciphertext.split.append_left _).append_right _
  exact fun heq =>
    Ghash.ofBlocks_ne hkey hblocks (Block.xor_right_injective _ heq)

/-- Associated data that differs in a byte differs in a block, behind
the same header: the header depends on the length alone, and shifts both
texts by as much. -/
theorem Ccm.aadBlocks_oneApart {aad aad' : Bytes} (h : OneApart aad aad') :
    OneApart (aadBlocks aad) (aadBlocks aad') := by
  unfold aadBlocks
  rw [if_neg (by simpa using h.ne_nil), if_neg (by simpa using h.symm.ne_nil),
    h.length_eq]
  exact (h.append_left _).split

/-- **In counter with CBC-MAC mode a changed byte changes the whole
tag** of the plaintext and its associated data, under any cipher that is
injective. The opening block is the same on both sides. -/
theorem Ccm.OneShot.tag_ne {cipher : Block → Block}
    (hcipher : Function.Injective cipher) (tagLength : Nat) (nonce : Bytes)
    {aad plaintext aad' plaintext' : Bytes}
    (h : Altered aad plaintext aad' plaintext') :
    tag cipher tagLength nonce aad plaintext
      ≠ tag cipher tagLength nonce aad' plaintext' := by
  have hblocks : OneApart (macBlocks tagLength nonce aad plaintext)
      (macBlocks tagLength nonce aad' plaintext') := by
    unfold macBlocks openingBlock openingFlags
    obtain ⟨haad, rfl⟩ | ⟨rfl, hplaintext⟩ := h
    · -- Neither is empty, so that the flags of the opening block are the same.
      rw [if_neg (by simpa using haad.ne_nil),
        if_neg (by simpa using haad.symm.ne_nil)]
      exact ((aadBlocks_oneApart haad).append_right _).append_left [_]
    · rw [hplaintext.length_eq]
      exact (hplaintext.split.append_left _).append_left [_]
  rw [tag_eq, tag_eq]
  -- Both chains are masked with the same block.
  exact fun heq =>
    CbcMac.ofBlocks_ne hcipher hblocks (Block.xor_left_injective _ heq)

/-! ## Messages that are opened -/

/-- **The whole tag of a ciphertext** under a nonce. One of the modes
authenticates the ciphertext as it is, the other what it is decrypted
to. -/
def Mode.sealTag (cipher : Block → Block) (mode : Mode)
    (nonce aad ciphertext : Bytes) : Block :=
  match mode with
  | .gcm => Gcm.OneShot.tag cipher (Gcm.OneShot.origin cipher nonce) aad
    ciphertext
  | .ccm => Ccm.OneShot.tag cipher 16 nonce aad
    (Ccm.OneShot.crypt cipher nonce ciphertext)

/-- **A changed byte changes the whole tag**, of the ciphertext in both
modes: decrypting keeps a difference where it is and adds none. -/
theorem Mode.sealTag_ne (mode : Mode) {cipher : Block → Block}
    (hcipher : Function.Injective cipher)
    (hkey : mode = .gcm → cipher Block.zero ≠ Block.zero) {nonce : Bytes}
    (hnonce : mode.TakesNonce nonce) {aad ciphertext aad' ciphertext' : Bytes}
    (h : Altered aad ciphertext aad' ciphertext') :
    mode.sealTag cipher nonce aad ciphertext
      ≠ mode.sealTag cipher nonce aad' ciphertext' := by
  cases mode with
  | gcm => exact Gcm.OneShot.tag_ne (hkey rfl) _ h
  | ccm =>
    -- What is authenticated is the plaintext, where the byte has changed too.
    have hnonce : nonce.length ≤ 12 := hnonce.2
    refine Ccm.OneShot.tag_ne hcipher 16 nonce ?_
    rw [Ccm.OneShot.crypt_eq cipher (by omega),
      Ccm.OneShot.crypt_eq cipher (by omega)]
    exact h.imp (And.imp_right (congrArg _))
      (And.imp_right (OneApart.under _ 0))

namespace Session

variable {cipher : BlockCipher} {tagLength : Nat} {mode : Mode} {t : Transcript}
  {s : Session}

/-- The ciphertext side of what a delivery gives: its encryption when it
seals, the bytes themselves when it opens. -/
def Delivery.ciphertext (cipher : Block → Block) (mode : Mode) (nonce : Bytes)
    (given : Bytes) :
    Direction → Bytes
  | .encrypt => Keystream.under (mode.keyByte cipher nonce) 0 given
  | .decrypt => given

/-- **The tag after a delivery** is that of its ciphertext, whichever
way it was given. -/
theorem Delivery.exists_tag (h : Stream.Keyed cipher tagLength mode s.stream)
    (hmode : mode = .ccm → tagLength = 16) {nonce aad given : Bytes}
    {direction : Direction} {d : Delivery}
    (hd : d.Carries mode direction aad given) (hnonce : mode.TakesNonce nonce)
    (haad : mode.TakesAad aad.length)
    (hlimit : given.length ≤ mode.maxMessageLength nonce) :
    ∃ t : Transcript,
      Holds cipher tagLength mode t (after step s (d.calls nonce))
        ∧ t.tag mode cipher.encrypt tagLength
          = mode.sealTag cipher.encrypt nonce aad
              (Delivery.ciphertext cipher.encrypt mode nonce given
                  direction) := by
  obtain ⟨-, -, begun, hheld⟩ := Delivery.record_calls h hd hnonce haad hlimit
  refine ⟨_, hheld, ?_⟩
  cases mode with
  | gcm => cases direction <;> rfl
  | ccm =>
    have hmax : nonce.length ≤ 12 := hnonce.2
    obtain rfl := hmode rfl
    show _ = Ccm.OneShot.tag _ 16 nonce aad (Ccm.OneShot.crypt _ nonce _)
    rw [Ccm.OneShot.crypt_eq _ (by omega)]
    cases direction with
    | encrypt =>
      show _ = Ccm.OneShot.tag _ 16 nonce aad
        (Keystream.under (Mode.ccm.keyByte _ nonce) 0
          (Keystream.under (Mode.ccm.keyByte _ nonce) 0 given))
      rw [Keystream.under_under]
      rfl
    | decrypt => rfl

/-- A whole tag is one that every mode takes, if counter with CBC-MAC
mode is set to it. The other mode takes it as it takes any shorter one. -/
theorem takesTag_whole (mode : Mode) (hmode : mode = .ccm → tagLength = 16) :
    mode.TakesTag tagLength 16 := by
  cases mode with
  | gcm => exact ⟨by decide, by decide⟩
  | ccm => exact (hmode rfl).symm

/-- A stream can be made for whole tags in either mode, under the same
condition. -/
theorem acceptsTagLength_whole (mode : Mode)
    (hmode : mode = .ccm → tagLength = 16) :
    Stream.acceptsTagLength mode tagLength = true := by
  cases mode with
  | gcm => rfl
  | ccm => rw [hmode rfl]; rfl

/-- **The whole tag of a message**, when it is asked for, is handed out
byte by byte as the transcript has it. -/
theorem Holds.step_tag_whole (h : Holds cipher tagLength mode t s)
    (hn : mode.TakesTag tagLength 16) :
    (s.step (.tag (Bytes.zeros 16))).1
      = ⟨.ok (), (t.tag mode cipher.encrypt tagLength).toBytes⟩ := by
  rw [h.step_tag (by rwa [Bytes.length_zeros]), Bytes.length_zeros,
    List.take_of_length_le (Nat.le_of_eq (Block.length_toBytes _))]

/-- **A changed byte is refused.** The whole tag of a ciphertext and its
associated data is the tag that a session gives that has sealed them,
and one that a session takes that opens them. After any single byte has
been changed, no session that opens them takes it any more: all calls up
to it are granted, and then the tag is refused. Neither what the
sessions have been used for before nor the pieces of the message make a
difference. In counter with CBC-MAC mode nothing is asked of the key; in
Galois/counter mode, that it does not encrypt the zero block to itself. -/
theorem altered_byte_is_refused (mode : Mode) (key : Bytes)
    (hkey : key.length = 16 ∨ key.length = 24 ∨ key.length = 32)
    (tagLength : Nat) (htag : mode = .ccm → tagLength = 16) (nonce : Bytes)
    (hnonce : mode.TakesNonce nonce) (aad : Bytes)
    (haad : mode.TakesAad aad.length) (ciphertext : Bytes)
    (hlimit : ciphertext.length ≤ mode.maxMessageLength nonce) :
    ∃ cipher fresh,
      Aes.blockCipher? key = some cipher ∧ ofKey mode key tagLength = .ok fresh
      ∧ let tag := (mode.sealTag cipher.encrypt nonce aad ciphertext).toBytes
        (∀ (past : List Call) (sent : Delivery) (plaintext : Bytes),
          sent.Carries mode .encrypt aad plaintext
            → plaintext.length = ciphertext.length →
          (record step (fresh.run past).2 (sent.calls nonce)).flatMap
            Exchange.written
            = ciphertext →
          (((fresh.run past).2.run (sent.calls nonce)).2.step
              (.tag (Bytes.zeros 16))).1
            = ⟨.ok (), tag⟩)
        ∧ (∀ (past : List Call) (received : Delivery),
          received.Carries mode .decrypt aad ciphertext →
          (((fresh.run past).2.run (received.calls nonce)).2.step
              (.verify tag)).1 = ⟨.ok (), []⟩)
        ∧ ((mode = .gcm → cipher.encrypt Block.zero ≠ Block.zero) →
          ∀ (past : List Call) (received : Delivery) (aad' ciphertext' : Bytes),
            Altered aad ciphertext aad' ciphertext' →
            received.Carries mode .decrypt aad' ciphertext' →
            (∀ e ∈ record step (fresh.run past).2 (received.calls nonce),
                e.succeeded = true)
            ∧ (((fresh.run past).2.run (received.calls nonce)).2.step
                (.verify tag)).1
              = ⟨.error .authenticationFailed, []⟩) := by
  obtain ⟨cipher, fresh, hcipher, hfresh, hkeyed⟩ :=
    exists_ofKey_of_cipher mode tagLength hkey
      (acceptsTagLength_whole mode htag)
  refine ⟨cipher, fresh, hcipher, hfresh, ?_⟩
  intro tag
  simp only [run_eq]
  have htakes := takesTag_whole mode htag
  have hkeyed (past : List Call) := keyed_after hkeyed past
  refine ⟨fun past sent plaintext hsent hsize hwritten => ?_,
    fun past received hreceived => ?_,
    fun hzero past received aad' ciphertext' haltered hreceived => ?_⟩
  · -- The session that seals: its ciphertext is the given one.
    have hlimit' : plaintext.length ≤ mode.maxMessageLength nonce :=
      hsize ▸ hlimit
    obtain ⟨-, hsealed, -⟩ :=
      Delivery.record_calls (hkeyed past) hsent hnonce haad hlimit'
    obtain ⟨t, hheld, ht⟩ :=
      Delivery.exists_tag (hkeyed past) htag hsent hnonce haad hlimit'
    have hciphertext :
      Delivery.ciphertext cipher.encrypt mode nonce plaintext .encrypt
        = ciphertext := hsealed.symm.trans hwritten
    rw [hheld.step_tag_whole htakes, ht, hciphertext]
  · -- The session that opens what was sealed.
    obtain ⟨t, hheld, ht⟩ :=
      Delivery.exists_tag (hkeyed past) htag hreceived hnonce haad hlimit
    rw [hheld.step_verify_whole htakes, ht, Delivery.ciphertext, if_pos rfl]
  · -- The session that opens something else: its tag is another one.
    have haad' : mode.TakesAad aad'.length := haltered.length_eq.1 ▸ haad
    have hlimit' : ciphertext'.length ≤ mode.maxMessageLength nonce :=
      haltered.length_eq.2 ▸ hlimit
    obtain ⟨hgranted, -, -⟩ :=
      Delivery.record_calls (hkeyed past) hreceived hnonce haad' hlimit'
    obtain ⟨t, hheld, ht⟩ :=
      Delivery.exists_tag (hkeyed past) htag hreceived hnonce haad' hlimit'
    have hne :=
      mode.sealTag_ne (Aes.encrypt_injective hcipher) hzero hnonce haltered
    refine ⟨hgranted, ?_⟩
    rw [hheld.step_verify_whole htakes,
      if_neg fun heq => hne (heq.symm.trans ht)]

/-- The last byte of a ciphertext in Galois/counter mode, and the first
byte of associated data without a message in counter with CBC-MAC mode:
the two ends of what one byte can be. In the first mode the hash key of
the zero key is not zero. -/
theorem altered_byte_is_refused_at_either_end :
    (∃ fresh tag, ofKey .gcm (Bytes.zeros 16) 16 = .ok fresh
      ∧ let genuine : Delivery :=
        ⟨[2], [[3]], [.transformInPlace .decrypt [4, 5, 6] 3]⟩
        let changed : Delivery := ⟨[2, 3], [], [.transform .decrypt [4] [0],
          .transformInPlace .decrypt [5, 7] 2]⟩
        ((fresh.run (genuine.calls [1])).2.step (.verify tag)).1 = ⟨.ok (), []⟩
          ∧ ((fresh.run (changed.calls [1])).2.step (.verify tag)).1
            = ⟨.error .authenticationFailed, []⟩)
    ∧ ∃ fresh tag, ofKey .ccm (Bytes.zeros 16) 16 = .ok fresh
      ∧ let genuine : Delivery := ⟨[2, 3], [], []⟩
        let changed : Delivery := ⟨[9, 3], [], []⟩
        ((fresh.run (genuine.calls (Bytes.zeros 8))).2.step (.verify tag)).1
          = ⟨.ok (), []⟩
        ∧ ((fresh.run (changed.calls (Bytes.zeros 8))).2.step (.verify tag)).1
          = ⟨.error .authenticationFailed, []⟩ := by
  constructor
  · obtain ⟨cipher, fresh, hcipher, hfresh, -, hopened, hrefused⟩ :=
      altered_byte_is_refused .gcm (Bytes.zeros 16) (by decide) 16 nofun [1]
        (by decide) [2, 3]
        (by decide) [4, 5, 6] (by decide)
    refine ⟨fresh,
      (Mode.sealTag cipher.encrypt .gcm [1] [2, 3] [4, 5, 6]).toBytes, hfresh,
      ?_⟩
    intro genuine changed
    refine ⟨hopened [] genuine ⟨rfl, nofun, fun call hcall => ?_, rfl⟩,
      (hrefused (fun _ => Aes.encrypt_zero_ne hcipher) [] changed [2, 3]
          [4, 5, 7]
        (Or.inr ⟨rfl, [4, 5], 6, 7, [], by decide, rfl, rfl⟩)
        ⟨rfl, nofun, fun call hcall => ?_, rfl⟩).2⟩
    · obtain rfl : call = _ := by simpa [genuine] using hcall
      exact ⟨_, rfl, rfl, by decide⟩
    · obtain rfl | rfl : call = _ ∨ call = _ := by simpa [changed] using hcall
      · exact ⟨_, rfl, rfl, by decide⟩
      · exact ⟨_, rfl, rfl, by decide⟩
  · obtain ⟨cipher, fresh, -, hfresh, -, hopened, hrefused⟩ :=
      altered_byte_is_refused .ccm (Bytes.zeros 16) (by decide) 16
        (fun _ => rfl) (Bytes.zeros 8)
        (by decide) [2, 3] (by decide) [] (by decide)
    refine ⟨fresh,
      (Mode.sealTag cipher.encrypt .ccm (Bytes.zeros 8) [2, 3] []).toBytes,
      hfresh, ?_⟩
    intro genuine changed
    exact ⟨hopened [] genuine ⟨rfl, fun _ => rfl, nofun, rfl⟩,
      (hrefused nofun [] changed [9, 3] []
          (Or.inl ⟨⟨[], 2, 9, [3], by decide, rfl, rfl⟩, rfl⟩)
        ⟨rfl, fun _ => rfl, nofun, rfl⟩).2⟩

end Session

end Aead

end Strongbox
