import Mathlib.Algebra.Order.Floor.Div
import Strongbox.Proofs.Aead.Limits
import Strongbox.Proofs.Aead.Packed

/-!
# Where a stream in memory stands

The working state of a stream moves on in several places at once: a
counter block, a keystream block and the part of it that has been handed
out, a block that is pending for the hash, two lengths or two buffers.
They are moved by different loops, in calls that come in any order and
may be refused, with tags in between that work in the same memory.
`Gcm.Packed.StandsAt` and `Ccm.Packed.StandsAt` say where each of them
is, from the nonce and from how much has been granted since, and from
nothing else.

`stands_at_tally` says that they are there whenever there has been a
nonce, after every list of calls that comes to its end. What is used of
a stream is that it counts what it is given (`Stream.Counts`) and that
it holds a transcript under the latest nonce (`Stream.Holds`);
`Stream.Traced` keeps the two together, and `Packs.ensures_step` brings
every call to the memory down to the stream, also where the buffers are
so large that the call might not come to an end.

* `Keystream.After.counter_eq` and `Keystream.After.block_eq` number the
  blocks of a keystream that has been spent so far: one step for each
  block that has been begun.
* `Gcm.Holds.standsAt` and `Ccm.Packs.standsAt` read the places of the
  memory off the stream that lies in it, field by field.
* `Traced.step` and `Packs.exists_traced` are the step and the run.
  Nothing in them is about memory; that a list of calls comes to its end
  is assumed, not its sizes.
-/

namespace Strongbox

/-! ## The keystream block by block -/

/-- How much of the keystream block has been handed out after so many
bytes of a message. At the end of a block all of it has, and the next
one has not been made yet. -/
def Aead.keystreamPositionAfter (n : Nat) : Nat :=
  if n % 16 = 0 then 16 else n % 16

namespace Keystream

variable {cipher next : Block → Block} {before : Block} {n : Nat}
  {k : Keystream}

/-- **Every block of a message has been counted**, where the counting
begins behind a block: one step leads to the first counter block, and
one more follows for each block that has been begun. -/
theorem After.counter_eq (h : After cipher next (next before) n k) :
    k.counter = Nat.repeat next (1 + n ⌈/⌉ 16) before := by
  rw [h.counter, repeat_next, Nat.add_comm 1, Nat.ceilDiv_eq_add_pred_div]
  rfl

/-- **A block that is under way** is the encryption of the one that was
counted last. At the end of a block nothing is left of it, and what it
was does not matter. -/
theorem After.block_eq (h : After cipher next (next before) n k)
    (hleft : n % 16 ≠ 0) :
    k.block = cipher (Nat.repeat next (n ⌈/⌉ 16) before) := by
  have hceil : n ⌈/⌉ 16 = n / 16 + 1 := by
    rw [Nat.ceilDiv_eq_add_pred_div]
    omega
  rw [h.block hleft, repeat_next, hceil]

end Keystream

namespace Aead

open Checked

/-! ## Galois/counter mode -/

namespace Gcm

/-- **Where a stream in Galois/counter mode stands** in its memory,
under a nonce and after what has been granted since. -/
structure Packed.StandsAt (cipher : BlockCipher) (nonce : Bytes) (t : Tally)
    (p : Packed) :
    Prop where
  /-- The keystream block has been handed out up to the end of the
  message. -/
  keystreamPosition_eq : p.keystreamPosition = keystreamPositionAfter t.message
  /-- The counter block has been counted once for the start block, and
  once for every block of the message. -/
  counter_eq : slice p.row counterAt (counterAt + 16)
    = .ok (Nat.repeat nextCounter (1 + t.message ⌈/⌉ 16)
        (OneShot.origin cipher.encrypt nonce)).toBytes
  /-- A keystream block of which there is something left is the
  encryption of the block before the counter block. -/
  keystream_eq (hleft : t.message % 16 ≠ 0) :
    slice p.row keystreamAt (keystreamAt + 16)
      = .ok (cipher.encrypt (Nat.repeat nextCounter (t.message ⌈/⌉ 16)
          (OneShot.origin cipher.encrypt nonce))).toBytes
  /-- The length of the associated data is kept. -/
  aadLength_eq : p.aadLength = t.aad
  /-- The length of the message is kept. -/
  messageLength_eq : p.messageLength = t.message
  /-- The start block is that of the nonce. -/
  origin_eq : slice p.row originAt (originAt + 16)
    = .ok (OneShot.origin cipher.encrypt nonce).toBytes
  /-- The hash key is the encrypted zero block. -/
  hashKey_eq : slice p.row hashKeyAt (hashKeyAt + 16)
    = .ok (cipher.encrypt Block.zero).toBytes
  /-- What is pending is what the associated data leaves over a whole
  number of blocks, and after the first transform what the message does. -/
  pendingLength_eq : p.pendingLength = if t.begun then t.message % 16
    else t.aad % 16
  /-- Behind what is pending there are zeros. -/
  pending_eq : ∃ pending, slice p.row pendingAt (pendingAt + 16) = .ok pending
    ∧ pending.drop p.pendingLength = Bytes.zeros (16 - p.pendingLength)

variable {cipher : BlockCipher} {tr : Transcript} {t : Tally} {g : Gcm}

/-- How many bytes are pending: what is left of the associated data
until the message begins, and of the message after it has. -/
theorem Holds.filled_eq (h : Holds cipher tr g) :
    g.hash.filled = if tr.begun then tr.plaintext.length % 16
      else tr.aad.length % 16 := by
  cases hbegun : tr.begun with
  | false => exact (h.aadHash hbegun).filled
  | true => rw [if_pos rfl, (h.messageHash hbegun).filled, h.sound.length]

/-- **A stream that holds a transcript stands where its tally says.**
The memory is the one that the stream has, so that each place is read
off a field, and the field off the transcript. -/
theorem Holds.standsAt (h : Holds cipher tr g) (hcounts : Counts t g)
    (hsound : g.Sound) :
    g.pack.StandsAt cipher tr.nonce t := by
  have hmessage : tr.plaintext.length = t.message :=
    h.messageLength_eq.symm.trans hcounts.messageLength_eq
  have hkeystream := h.keystream
  rw [hmessage] at hkeystream
  refine ⟨hkeystream.spent, ?_, fun hleft => ?_, hcounts.aadLength_eq,
    hcounts.messageLength_eq,
    ?_, ?_, ?_, g.hash.pending.toBytes, ?_, hsound.hash.drop_pending⟩
  · rw [← hkeystream.counter_eq]
    exact slice_block [g.origin] _ _
  · rw [← hkeystream.block_eq hleft]
    exact slice_block [g.origin, g.keystream.counter] _ _
  · rw [← h.origin_eq]
    exact slice_block [] _ _
  · rw [show cipher.encrypt Block.zero = g.hash.key from h.keyed.key_eq.symm]
    exact slice_block
      [g.origin, g.keystream.counter, g.keystream.block, g.hash.pending] [] _
  · rw [pendingLength_pack, h.filled_eq, hmessage, ← h.aadLength_eq,
      hcounts.aadLength_eq,
      ← h.inMessage_eq, hcounts.inMessage_eq]
  · exact slice_block [g.origin, g.keystream.counter, g.keystream.block] _ _

end Gcm

/-! ## Counter with CBC-MAC mode -/

namespace Ccm

/-- **Where a stream in counter with CBC-MAC mode stands** in its
memory, under a nonce and after what has been granted since. -/
structure Packed.StandsAt (cipher : BlockCipher) (nonce : Bytes) (t : Tally)
    (p : Packed) :
    Prop where
  /-- The keystream block has been handed out up to the end of the
  message. -/
  keystreamPosition_eq : p.keystreamPosition = keystreamPositionAfter t.message
  /-- The counter block is the width of its number, the nonce, and the
  number. -/
  counter_eq : slice p.row counterAt (counterAt + 16)
    = .ok (UInt8.ofNat (15 - nonce.length - 1) :: nonce
        ++ Bytes.bigEndian (15 - nonce.length) (1 + t.message ⌈/⌉ 16))
  /-- The number is one that its width holds. -/
  counter_lt : 1 + t.message ⌈/⌉ 16 < 256 ^ (15 - nonce.length)
  /-- A keystream block of which there is something left is the
  encryption of the block before the counter block. -/
  keystream_eq (hleft : t.message % 16 ≠ 0) :
    slice p.row keystreamAt (keystreamAt + 16)
      = .ok (cipher.encrypt (counterBlock nonce (t.message ⌈/⌉ 16))).toBytes
  /-- So much of the message is kept. -/
  message_eq : p.message.length = t.message
    ∧ p.message.toList.length = t.message
  /-- The length of the nonce is kept. -/
  nonceLength_eq : p.nonceLength = nonce.length
  /-- The nonce is kept. -/
  nonce_eq : slice p.row nonceAt (nonceAt + nonce.length) = .ok nonce

variable {cipher : BlockCipher} {tagLength : Nat} {tr : Transcript} {t : Tally}
  {p : Packed}
  {c : Ccm}

/-- **The number in the counter block does not come round**: it is as
wide as the number in which the length of a message is authenticated,
and there are fewer blocks than bytes. -/
theorem counter_lt_of_le {nonce : Bytes} (hn : Mode.ccm.TakesNonce nonce)
    {m : Nat} (hm : m ≤ Mode.ccm.messageLimit nonce.length) :
    1 + m ⌈/⌉ 16 < 256 ^ (15 - nonce.length) := by
  have hlimit : Mode.ccm.messageLimit nonce.length
    = 256 ^ (15 - nonce.length) - 1 := by
    show 2 ^ (8 * (15 - nonce.length)) - 1 = _
    rw [Nat.pow_mul]
  have hwidth : 256 ^ 3 ≤ 256 ^ (15 - nonce.length) :=
    Nat.pow_le_pow_right (by decide)
      (Nat.le_sub_of_add_le' (Nat.add_le_add_right hn.2 3))
  rw [hlimit] at hm
  rw [Nat.ceilDiv_eq_add_pred_div]
  omega

/-- **A stream that holds a transcript stands where its tally says**, in
whichever memory it lies: what the memories of one stream differ in is
not among the places. -/
theorem Packs.standsAt (hpacks : Packs p c) (h : Holds cipher tagLength tr c)
    (hcounts : Counts t c) : p.StandsAt cipher tr.nonce t := by
  obtain ⟨keystream, hm, hkeystream⟩ := h.message
  have hn : Mode.ccm.TakesNonce tr.nonce := h.sound.nonce
  have hshort : tr.nonce.length ≤ 15 := Nat.le_trans hn.2 (by decide)
  have hfirst : counterBlock tr.nonce 1
    = nextCounter tr.nonce (counterBlock tr.nonce 0) :=
    (repeat_nextCounter tr.nonce hshort 0 1).symm
  have hblock (n : Nat) :
    Nat.repeat (nextCounter tr.nonce) n (counterBlock tr.nonce 0)
      = counterBlock tr.nonce n := by
        rw [repeat_nextCounter tr.nonce hshort, Nat.zero_add]
  cases hpacks with
  | blank => cases hm
  | carrying htag hsound mac haad hmessage =>
    cases hm
    cases hcounts with
    | carrying _ _ hnonce htakes hlength hle =>
      rw [hfirst, show tr.plaintext.length = t.message from hlength]
        at hkeystream
      refine ⟨hkeystream.spent, ?_, counter_lt_of_le hn hle, fun hleft => ?_,
        ⟨?_, ?_⟩, rfl,
        slice_nonce mac hn⟩
      · have hbytes := toBytes_nonceBlock tr.nonce (lengthWidth tr.nonce - 1)
          (1 + t.message ⌈/⌉ 16) hshort
        refine Eq.trans ?_ (congrArg Except.ok hbytes)
        rw [← counterBlock, ← hblock, ← hkeystream.counter_eq]
        exact slice_block [] _ _
      · rw [← hblock, ← hkeystream.block_eq hleft]
        exact slice_block [keystream.counter] _ _
      · exact hmessage.length_eq.trans hlength
      · exact (congrArg List.length hmessage.toList_eq).trans hlength

end Ccm

/-! ## A stream of either mode -/

/-- **Where a stream stands** in its memory, under a nonce and after
what has been granted since, in the way of its mode. -/
inductive Packed.StandsAt (cipher : BlockCipher) (nonce : Bytes) (t : Tally) :
    Mode → Packed → Prop
  /-- In Galois/counter mode. -/
  | gcm {p : Gcm.Packed} (h : p.StandsAt cipher nonce t) :
    StandsAt cipher nonce t .gcm (.gcm p)
  /-- In counter with CBC-MAC mode. -/
  | ccm {p : Ccm.Packed} (h : p.StandsAt cipher nonce t) :
    StandsAt cipher nonce t .ccm (.ccm p)

/-- Only a nonce that is granted is a new one: every other exchange
leaves the one that the tally knows. -/
theorem Tally.nonce?_next (t : Tally) {call : Stream.Call}
    (hc : call.continues = true) (reply : Reply StreamError) :
    (t.next ⟨call, reply⟩).nonce? = t.nonce? := by
  obtain ⟨outcome, buffer⟩ := reply
  cases call with
  | reset nonce => cases hc
  | authenticate | transform | tag => cases outcome <;> rfl

namespace Stream

/-- **What a stream has come to** after a tally: it belongs to its key,
counts what the tally counts, and holds a transcript under the latest
nonce. -/
structure Traced (cipher : BlockCipher) (tagLength : Nat) (mode : Mode)
    (t : Tally) (s : Stream) :
    Prop where
  /-- The stream belongs to its key. -/
  keyed : Keyed cipher tagLength mode s
  /-- The stream counts what the tally counts. -/
  counts : Counts mode t s
  /-- Once there has been a nonce, there is a transcript under the
  latest one. -/
  holds {nonce : Bytes} (hnonce : t.nonce? = some nonce) :
    ∃ tr : Transcript, tr.nonce = nonce ∧ Holds cipher tagLength mode tr s

variable {cipher : BlockCipher} {tagLength : Nat} {mode : Mode} {t : Tally}
  {p : Packed}
  {s : Stream}

/-- A stream that has just been made has come to nothing: there has been
no nonce, and so there is no transcript to hold. -/
theorem Traced.ofCipher (mode : Mode) (cipher : BlockCipher) (tagLength : Nat) :
    Traced cipher tagLength mode .zero (ofCipher mode cipher tagLength) where
  keyed := .ofCipher mode cipher tagLength
  counts := match mode with
    | .gcm => .gcm (.ofCipher cipher)
    | .ccm => .ccm (.blank cipher tagLength rfl)
  holds := nofun

/-- **One more call.** A granted nonce begins a transcript, every other
call extends the one there is, and the count goes on in either case. -/
theorem Traced.step (h : Traced cipher tagLength mode t s) (call : Call) :
    Traced cipher tagLength mode (t.next ⟨call, (s.step call).1⟩)
      (s.step call).2 where
  keyed := h.keyed.step call
  counts := h.counts.step call
  holds {nonce} hnonce := by
    by_cases hc : call.continues = true
    · rw [Tally.nonce?_next t hc] at hnonce
      obtain ⟨tr, htr, hholds⟩ := h.holds hnonce
      exact ⟨tr.extend ⟨call, (s.step call).1⟩, htr, (hholds.step hc).2⟩
    · cases call with
      | reset given =>
        by_cases hn : mode.TakesNonce given
        · rw [h.keyed.step_reset hn] at hnonce ⊢
          exact ⟨.start given, Option.some.inj hnonce, .opened hn⟩
        · rw [h.keyed.step_reset_refused hn, Tally.next_error] at hnonce
          rw [h.keyed.step_reset_refused hn]
          exact h.holds hnonce
      | _ => exact absurd rfl hc

/-- **A list of calls that comes to its end** leaves a stream in memory
that has come to the tally of them. -/
theorem Packs.exists_traced (hpacks : Packs p s)
    (htraced : Traced cipher tagLength mode t s) {calls : List Call}
    {replies : List (Reply StreamError)} {p' : Packed}
    (hrun : p.run calls = .ok (replies, p')) :
    ∃ s', Packs p' s' ∧ Traced cipher tagLength mode
      ((List.zipWith Exchange.mk calls replies).foldl Tally.next t) s' := by
  induction calls generalizing p s t replies with
  | nil =>
    cases hrun
    exact ⟨s, hpacks, htraced⟩
  | cons call calls ih =>
    obtain ⟨⟨reply, p₁⟩, hstep, hrest⟩ := exists_of_bind_eq_ok hrun
    obtain ⟨⟨replies', p₂⟩, hafter, hlast⟩ := exists_of_bind_eq_ok hrest
    cases hlast
    obtain ⟨rfl, hpacks₁⟩ := hpacks.ensures_step call _ hstep
    exact ih hpacks₁ (htraced.step call) hafter

/-- **A stream stands where its tally says**, in either mode, once there
has been a nonce. -/
theorem Packs.standsAt (hpacks : Packs p s)
    (htraced : Traced cipher tagLength mode t s) {nonce : Bytes}
    (hnonce : t.nonce? = some nonce) : p.StandsAt cipher nonce t mode := by
  obtain ⟨tr, rfl, hholds⟩ := htraced.holds hnonce
  have hcounts := htraced.counts
  cases hpacks with
  | gcm hsound =>
    cases hholds with
    | gcm hholds =>
      cases hcounts with
      | gcm hcounts => exact .gcm (hholds.standsAt hcounts hsound)
  | ccm hpacks =>
    cases hholds with
    | ccm hholds =>
      cases hcounts with
      | ccm hcounts => exact .ccm (hpacks.standsAt hholds hcounts)

/-- A stream made under a key in memory has come to nothing yet. The
memory is that of a stream made under the same key. -/
theorem exists_traced_ofKey {key : Bytes}
    (hpacked : Packed.ofKey mode key tagLength = .ok (.ok p)) :
    ∃ cipher s, Aes.blockCipher? key = some cipher ∧ Packs p s
      ∧ Traced cipher tagLength mode .zero s := by
  cases htag : acceptsTagLength mode tagLength with
  | false =>
    unfold Packed.ofKey at hpacked
    rw [htag] at hpacked
    cases hpacked
  | true =>
    cases hcipher : Aes.blockCipher? key with
    | none =>
      unfold Packed.ofKey at hpacked
      rw [htag, hcipher] at hpacked
      cases hpacked
    | some cipher =>
      obtain ⟨packed, hlaid, hpacks⟩ := exists_packs_ofCipher hcipher htag
      cases hlaid.symm.trans hpacked
      exact ⟨cipher, _, rfl, hpacks, .ofCipher mode cipher tagLength⟩

end Stream

/-- **A stream in memory stands where its tally says**, in both modes:
made under a key, and after any list of calls that comes to its end,
whatever was granted of them and whatever refused, everything in its
memory that a transform goes on from is where the latest nonce and the
lengths granted since it put it. -/
theorem stands_at_tally (mode : Mode) (key : Bytes) (tagLength : Nat)
    (packed : Packed)
    (hpacked : Packed.ofKey mode key tagLength = .ok (.ok packed))
    (calls : List Stream.Call) (replies : List (Reply StreamError))
    (packed' : Packed) (hrun : packed.run calls = .ok (replies, packed'))
    (nonce : Bytes)
    (hnonce : (Tally.ofRecord (List.zipWith Exchange.mk calls replies)).nonce?
        = some nonce) :
    ∃ cipher, Aes.blockCipher? key = some cipher
      ∧ packed'.StandsAt cipher nonce
        (Tally.ofRecord (List.zipWith Exchange.mk calls replies))
          mode := by
  obtain ⟨cipher, s, hcipher, hpacks, htraced⟩ :=
    Stream.exists_traced_ofKey hpacked
  obtain ⟨s', hpacks', htraced'⟩ := hpacks.exists_traced htraced hrun
  exact ⟨cipher, hcipher, hpacks'.standsAt htraced' hnonce⟩

/-- A byte beyond the first block, with a tag before the nonce and calls
that are refused in between. The nonce is the latest one, and what was
refused does not move anything. -/
theorem stands_at_tally_seventeen :
    let calls : List Stream.Call :=
      [.tag (Bytes.zeros 16), .reset (Bytes.zeros 12),
        .authenticate [1, 2], .transform .decrypt (Bytes.zeros 17),
        .authenticate [3], .reset [],
        .tag (Bytes.zeros 16), .transform .encrypt []]
    (∃ packed replies p,
        Packed.ofKey .gcm (Bytes.zeros 16) 16 = .ok (.ok packed)
      ∧ packed.run calls = .ok (replies, .gcm p)
      ∧ p.keystreamPosition = 1 ∧ p.messageLength = 17 ∧ p.pendingLength = 1)
    ∧ ∃ packed replies p,
      Packed.ofKey .ccm (Bytes.zeros 16) 16 = .ok (.ok packed)
        ∧ packed.run calls = .ok (replies, .ccm p)
        ∧ p.keystreamPosition = 1 ∧ p.message.length = 17
        ∧ slice p.row Ccm.Packed.counterAt (Ccm.Packed.counterAt + 16)
          = .ok (2 :: Bytes.zeros 12 ++ [0, 0, 3]) := by
  intro calls
  have hstands (mode : Mode) (htag : Stream.acceptsTagLength mode 16 = true) :
      ∃ packed replies packed' cipher,
        Packed.ofKey mode (Bytes.zeros 16) 16 = .ok (.ok packed)
          ∧ packed.run calls = .ok (replies, packed')
          ∧ packed'.StandsAt cipher (Bytes.zeros 12)
            ⟨some (Bytes.zeros 12), 2, 17, true⟩ mode := by
    obtain ⟨cipher, hcipher⟩ :=
      exists_blockCipher (.inl rfl : (Bytes.zeros 16).length = 16 ∨ _)
    obtain ⟨packed, hpacked, hpacks⟩ :=
      Stream.exists_packs_ofCipher hcipher htag
    have hkept : (Stream.ofCipher mode cipher 16).kept ≤ 0 := by
      cases mode <;> exact Nat.le_refl 0
    obtain ⟨packed', hrun⟩ :=
      hpacks.run (.ofCipher mode cipher 16) hkept calls (by decide)
        (by cases mode <;> decide)
    have htally : Tally.ofRecord (List.zipWith Exchange.mk calls
        ((Stream.ofCipher mode cipher 16).run calls).1)
          = ⟨some (Bytes.zeros 12), 2, 17, true⟩ := by cases mode <;> rfl
    obtain ⟨cipher', -, h⟩ :=
      stands_at_tally mode (Bytes.zeros 16) 16 packed hpacked calls _
      packed' hrun (Bytes.zeros 12) (by rw [htally])
    rw [htally] at h
    exact ⟨packed, _, packed', cipher', hpacked, hrun, h⟩
  obtain ⟨packed, replies, _, cipher, hpacked, hrun, hgcm⟩ := hstands .gcm rfl
  obtain ⟨packed₂, replies₂, _, cipher₂, hpacked₂, hrun₂, hccm⟩ :=
    hstands .ccm rfl
  cases hgcm with
  | gcm h =>
    cases hccm with
    | ccm h₂ =>
      exact ⟨⟨packed, replies, _, hpacked, hrun, h.keystreamPosition_eq,
        h.messageLength_eq,
        h.pendingLength_eq⟩, packed₂, replies₂, _, hpacked₂, hrun₂,
          h₂.keystreamPosition_eq,
        h₂.message_eq.1, h₂.counter_eq⟩

end Aead

end Strongbox
