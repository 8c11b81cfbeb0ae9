import Mathlib.Data.List.Nodup
import Strongbox.Proofs.Aead.Stream
import Strongbox.Proofs.Increment
import Strongbox.Proofs.Keystream.Drawn

/-!
# No block is encrypted twice

The secrecy of counter mode rests on the cipher never seeing a counter
block twice under one key. `Stream.drawn` lists the counter blocks that
a call has encrypted for the keystream, `Stream.maskBlock?` is the block
encrypted under the tag, and `Stream.openingBlock?` the one that opens
the chain over the message in the mode that has one.

What a message draws is an interval of the counting that begins with the
mask (`Holds.drawnIn`), whatever calls it comes in and however many of
them are refused. How long the interval can get is a matter of the limit
on messages, and how long it may get one of the width of the number that
is counted: `counters_nodup` is where the two meet, for each mode one
block short of coming round.

* `Mode.counters` is the counting itself: the mask and its successors,
  with no stream in it. A message of `n` bytes takes
  `Mode.counterCount n` of them.
* `Holds.keystreamBlocks`, `Holds.drawn` and `Holds.drawnIn` say for
  some bytes, for a call and for a history that what is drawn continues
  the counting where it stood.
* `Mode.counterCount_le` and `Mode.counters_nodup` bound the counting by
  the limit on messages, for both modes at once.
* `Use` is one message of a stream with all that came before it; two
  uses of one key are compared by the form of their counter blocks.

That the observers `maskBlock?`, `openingBlock?` and `drawn` name what
is really encrypted is shown in the module on encrypted blocks: a tag
and a transform depend on the cipher at these blocks and nowhere else.
-/

namespace Strongbox.Aead

namespace Mode

/-- The width in bytes of the number that is counted: four bytes in
Galois/counter mode, and in the other mode what the nonce leaves of the
block. -/
def counterWidth : Mode → (nonce : Bytes) → Nat
  | gcm, _ => 4
  | ccm, nonce => Ccm.lengthWidth nonce

/-- The step from one counter block of a nonce to the next. Only the
number changes, so that the bytes in front of it are those of the mask. -/
def nextCounter (mode : Mode) (nonce : Bytes) : Block → Block :=
  Block.increment (mode.counterWidth nonce)

/-- **The block under the tag of a nonce**, with which the counting
begins. -/
def maskBlock (cipher : Block → Block) : Mode → (nonce : Bytes) → Block
  | gcm, nonce => Gcm.OneShot.origin cipher nonce
  | ccm, nonce => Ccm.counterBlock nonce 0

/-- **The first `n` counter blocks of a nonce**, the one under the tag
among them, which is the first. -/
def counters (mode : Mode) (cipher : Block → Block) (nonce : Bytes) (n : Nat) :
    List Block :=
  Keystream.counters (mode.nextCounter nonce) (mode.maskBlock cipher nonce) n

/-- How many counter blocks a message of `n` bytes takes, with the one
under its tag. A block that is begun is drawn whole. -/
def counterCount (n : Nat) : Nat := (n + 15) / 16 + 1

end Mode

namespace Stream

/-- The counter blocks encrypted for the next `n` bytes of the message.
There may be none, when the rest of a block at hand is enough. -/
def keystreamBlocks (s : Stream) (n : Nat) : List Block :=
  match s with
  | gcm g => g.keystream.drawn g.cipher.encrypt Gcm.nextCounter n
  | ccm c =>
    match c.message? with
    | none => []
    | some m => m.keystream.drawn c.cipher.encrypt (Ccm.nextCounter m.nonce) n

/-- **The counter blocks that a call has encrypted for the keystream.**
Only a transform that is granted has any. -/
def drawn (s : Stream) : Call → List Block
  | .transform direction piece =>
    match s.transform direction piece with
    | .ok _ => s.keystreamBlocks piece.length
    | .error _ => []
  | _ => []

/-- The counter blocks that a history of calls has encrypted for the
keystream, in the order in which they were drawn. -/
def drawnIn (s : Stream) : List Call → List Block
  | [] => []
  | call :: calls => s.drawn call ++ (s.step call).2.drawnIn calls

/-- **The block whose encryption masks the tag** of the message under
way. In Galois/counter mode it is there before the first nonce, as the
block that the stream was made with. -/
def maskBlock? : Stream → Option Block
  | gcm g => some g.origin
  | ccm c => c.message?.map fun m => Ccm.counterBlock m.nonce 0

/-- **The block that opens the chain** over the message under way, in
the mode that has one. -/
def openingBlock? : Stream → Option Block
  | gcm _ => none
  | ccm c => c.message?.map fun m =>
    Ccm.openingBlock c.tagLength m.nonce m.aad m.plaintext.length

variable {cipher : BlockCipher} {tagLength : Nat} {mode : Mode} {t : Transcript}
  {s : Stream}

/-! ## What a message draws -/

/-- The mask of the message under way is the block with which the
counting of its nonce begins. -/
theorem Holds.maskBlock?_eq (h : Holds cipher tagLength mode t s) :
    s.maskBlock? = some (mode.maskBlock cipher.encrypt t.nonce) := by
  cases h with
  | gcm h => exact congrArg some h.origin_eq
  | ccm h =>
    obtain ⟨keystream, hm, -⟩ := h.message
    exact congrArg (Option.map _) hm

/-- The block that opens the chain has the nonce and both lengths of the
transcript in it. -/
theorem Holds.openingBlock?_eq (h : Holds cipher tagLength .ccm t s) :
    s.openingBlock?
      = some (Ccm.openingBlock tagLength t.nonce t.aad t.plaintext.length) := by
  cases h with
  | ccm h =>
    obtain ⟨keystream, hm, -⟩ := h.message
    simp only [openingBlock?, hm, h.keyed.tagLength_eq, Option.map_some]

/-- **The next bytes draw the next counter blocks**: those behind the
ones that the message so far has taken, as many as the longer message
takes. -/
theorem Holds.keystreamBlocks (h : Holds cipher tagLength mode t s) (n : Nat) :
    mode.counters cipher.encrypt t.nonce (Mode.counterCount t.plaintext.length)
        ++ s.keystreamBlocks n
      = mode.counters cipher.encrypt t.nonce
        (Mode.counterCount (t.plaintext.length + n)) := by
  unfold Mode.counters Mode.counterCount
  rw [Keystream.counters_succ, Keystream.counters_succ, List.cons_append]
  refine congrArg (mode.maskBlock cipher.encrypt t.nonce :: ·) ?_
  cases h with
  | @gcm _ g h =>
    have hdrawn := h.keystream.drawn n
    rw [← h.cipher_eq] at hdrawn ⊢
    exact hdrawn
  | @ccm _ c h =>
    obtain ⟨keystream, hm, hk⟩ := h.message
    have hdrawn := hk.drawn n
    have hfirst : Ccm.counterBlock t.nonce 1
        = Ccm.nextCounter t.nonce (Ccm.counterBlock t.nonce 0) :=
      (Ccm.nextCounter_nonceBlock t.nonce _ 0
          (h.sound.nonce.2.trans (by decide))).symm
    rw [hfirst, ← h.keyed.cipher_eq] at hdrawn
    unfold Stream.keystreamBlocks
    simp only [hm]
    exact hdrawn

/-- **A call draws the counter blocks that its part of the message
needs**, and a call that is refused draws none. -/
theorem Holds.drawn (h : Holds cipher tagLength mode t s) (call : Call) :
    mode.counters cipher.encrypt t.nonce (Mode.counterCount t.plaintext.length)
      ++ s.drawn call
      = mode.counters cipher.encrypt t.nonce
          (Mode.counterCount
              (t.extend ⟨call, (s.step call).1⟩).plaintext.length) := by
  cases call with
  | transform direction piece =>
    have hs := h.transform direction piece
    unfold Stream.drawn Stream.step
    cases hr : t.messageRefusal? mode piece.length with
    | some e =>
      rw [hr] at hs
      simp only [show s.transform direction piece = .error e from hs,
        Transcript.extend_error,
        List.append_nil]
    | none =>
      rw [hr] at hs
      obtain ⟨out, hs, hout, -⟩ := hs
      simp only [hs, hout, Transcript.extend_transform]
      rw [h.keystreamBlocks, Transcript.length_plaintext_transform _ _
        (Transcript.length_crypt ..)]
  | _ =>
    show _ ++ []
      = Mode.counters _ _ _ (Mode.counterCount (t.plaintext ++ []).length)
    rw [List.append_nil, List.append_nil]

/-- **What a message draws is an interval of the counting.** The
induction is over the calls; each appends its part to what was drawn
before, and the transcript says how far that reaches. -/
theorem Holds.drawnIn (h : Holds cipher tagLength mode t s) {calls : List Call}
    (hc : ∀ call ∈ calls, call.continues = true) :
    ∃ t' : Transcript, t'.nonce = t.nonce
      ∧ Holds cipher tagLength mode t' (Aead.after Stream.step s calls)
      ∧ mode.counters cipher.encrypt t.nonce
        (Mode.counterCount t.plaintext.length)
          ++ s.drawnIn calls
        = mode.counters cipher.encrypt t.nonce
          (Mode.counterCount t'.plaintext.length) := by
  -- The interval that has been drawn so far grows from its end, so that what
  -- is to come is joined to it call by call.
  induction calls generalizing t s with
  | nil => exact ⟨t, rfl, h, List.append_nil _⟩
  | cons call calls ih =>
    have hnext := (h.step (hc call (List.mem_cons_self ..))).2
    obtain ⟨t', hnonce, hlast, hdrawn⟩ :=
      ih hnext fun c hm => hc c (List.mem_cons_of_mem _ hm)
    refine ⟨t', hnonce, hlast, ?_⟩
    rw [Stream.drawnIn, ← List.append_assoc, h.drawn call]
    exact hdrawn

end Stream

/-! ## How far the counting goes -/

namespace Mode

/-- **The limit on messages fits the width of the counting**: the
longest message takes no more blocks than there are numbers. -/
theorem counterCount_le (mode : Mode) {nonce : Bytes}
    (hnonce : mode.TakesNonce nonce) {n : Nat}
    (hn : n ≤ mode.maxMessageLength nonce) :
    counterCount n ≤ 256 ^ mode.counterWidth nonce := by
  unfold counterCount
  cases mode with
  | gcm =>
    have hn : n ≤ 0x1000000000 - 32 := hn
    show _ ≤ 256 ^ 4
    omega
  | ccm =>
    have hpositive : Ccm.lengthWidth nonce ≠ 0 := by
      have hmax : nonce.length ≤ 12 := hnonce.2
      unfold Ccm.lengthWidth
      omega
    have hn : n ≤ Ccm.maxMessageLength nonce := hn
    rw [Ccm.maxMessageLength, Nat.one_shiftLeft, Nat.pow_mul] at hn
    have hwide : 256 ≤ 256 ^ Ccm.lengthWidth nonce :=
      Nat.le_self_pow hpositive 256
    show _ ≤ 256 ^ Ccm.lengthWidth nonce
    generalize 256 ^ Ccm.lengthWidth nonce = numbers at hn hwide ⊢
    have hn : n ≤ numbers - 1 := hn
    omega

/-- The number that is counted is part of a block, whatever the nonce.
The bytes before it are what tells two nonces apart. -/
theorem counterWidth_le {mode : Mode} (nonce : Bytes) :
    mode.counterWidth nonce ≤ 16 := by
  cases mode with
  | gcm => exact Nat.le_of_ble_eq_true rfl
  | ccm => exact (Nat.sub_le ..).trans (Nat.le_succ _)

/-- **No counter block of a message is another**: there are no more of
them than numbers of the width that is counted. -/
theorem counters_nodup (mode : Mode) (cipher : Block → Block) {nonce : Bytes}
    (hnonce : mode.TakesNonce nonce) {n : Nat}
    (hn : n ≤ mode.maxMessageLength nonce) :
    (mode.counters cipher nonce (counterCount n)).Nodup := by
  have hcount := mode.counterCount_le hnonce hn
  refine List.Nodup.map_on (fun i hi j hj h => ?_) List.nodup_range
  rw [List.mem_range] at hi hj
  exact Block.eq_of_repeat_increment_eq _ (counterWidth_le nonce)
    (hi.trans_le hcount)
    (hj.trans_le hcount) h

/-- **The counter blocks of a nonce in counter with CBC-MAC mode** are
numbered by the format, so that the nonce and the flags can be read off
each of them. -/
theorem mem_counters_ccm {cipher : Block → Block} {nonce : Bytes}
    (hnonce : nonce.length ≤ 15) {n : Nat} {block : Block}
    (h : block ∈ Mode.ccm.counters cipher nonce n) :
    ∃ i, block = Ccm.counterBlock nonce i := by
  obtain ⟨i, -, rfl⟩ := List.mem_map.mp h
  exact ⟨0 + i, Ccm.repeat_nextCounter nonce hnonce 0 i⟩

/-- **The counter blocks of a nonce of twelve bytes in Galois/counter
mode** have it in front, and behind it the numbers from one on. Other
nonces are hashed, and nothing can be read off their blocks. -/
theorem mem_counters_gcm {cipher : Block → Block} {nonce : Bytes}
    (hnonce : nonce.length = 12) {n : Nat} {block : Block}
    (h : block ∈ Mode.gcm.counters cipher nonce n) :
    block.toBytes.take 12 = nonce ∧ ∃ i < n,
    block.low 4 % 256 ^ 4 = (1 + i) % 256 ^ 4 := by
  obtain ⟨i, hi, rfl⟩ := List.mem_map.mp h
  have horigin : (Gcm.OneShot.origin cipher nonce).toBytes
      = nonce ++ [0, 0, 0, 1] := by
    rw [Gcm.OneShot.origin, if_pos hnonce]
    refine Block.toBytes_ofBytes_of_length ?_
    rw [List.length_append, hnonce]
    rfl
  refine ⟨?_, i, List.mem_range.mp hi, ?_⟩
  · refine (Block.take_repeat_increment (k := 4) _ (by decide) i).trans ?_
    show (Gcm.OneShot.origin cipher nonce).toBytes.take 12 = nonce
    rw [horigin, List.take_left' hnonce]
  · refine (Block.low_repeat_increment (k := 4) _ (by decide) i).trans ?_
    show (Bytes.ofBigEndian ((Gcm.OneShot.origin cipher nonce).toBytes.drop 12)
        + i) % _ = _
    rw [horigin, List.drop_left' hnonce]
    rfl

/-- **The zero block is not among them**, since the numbers stop before
they have come round to zero. -/
theorem zero_notMem_counters_gcm (cipher : Block → Block) {nonce : Bytes}
    (hnonce : nonce.length = 12) {n : Nat} (hn : n ≤ Gcm.maxMessageLength) :
    Block.zero ∉ Mode.gcm.counters cipher nonce (counterCount n) := by
  intro h
  obtain ⟨-, i, hi, hlow⟩ := mem_counters_gcm hnonce h
  have hzero : Block.zero.low 4 = 0 := by decide
  unfold counterCount at hi
  unfold Gcm.maxMessageLength at hn
  rw [hzero] at hlow
  omega

end Mode

/-! ## Messages under one key -/

namespace Stream

/-- **A message that a stream is given**, and all that goes before it.
Two uses of streams of one key are what the last theorem compares. -/
structure Use where
  /-- What the stream has been used for before. -/
  earlier : List Call
  /-- The nonce of the message. -/
  nonce : Bytes
  /-- The calls after the nonce. -/
  calls : List Call

namespace Use

/-- **The mode takes the nonce**, and no other one comes after it. So
the calls are all on one message, whether they are granted or not. -/
structure Fits (mode : Mode) (u : Use) : Prop where
  /-- The nonce is one of the mode's. -/
  nonce : mode.TakesNonce u.nonce
  /-- The calls go on with the message. -/
  continues : ∀ call ∈ u.calls, call.continues = true

variable (u : Use) (fresh : Stream)

/-- The stream at the beginning of the message: after all that went
before and after the nonce. -/
def begun : Stream := ((fresh.run u.earlier).2.step (.reset u.nonce)).2

/-- The stream at the end of it, after the calls that follow the nonce. -/
def ended : Stream := ((u.begun fresh).run u.calls).2

/-- **The counter blocks of the message**: the one under its tag, and
those encrypted for the keystream. The mask is listed once, since every
tag of the message has the same. -/
def encrypted : List Block :=
  (u.ended fresh).maskBlock?.toList ++ (u.begun fresh).drawnIn u.calls

variable {u fresh} {cipher : BlockCipher} {tagLength : Nat} {mode : Mode}

/-- At the beginning of a message nothing has been given, whatever the
stream has been used for before. -/
theorem holds_begun (h : Keyed cipher tagLength mode fresh)
    (hu : u.Fits mode) :
    Holds cipher tagLength mode (Transcript.start u.nonce)
      (u.begun fresh) := by
  unfold begun
  rw [run_eq, (h.after u.earlier).step_reset hu.nonce]
  exact Holds.opened hu.nonce

/-- **What a stream of a key encrypts for a message** is an interval of
the counting, as long as the message needs and the mode allows. -/
theorem encrypted_eq (h : Keyed cipher tagLength mode fresh)
    (hu : u.Fits mode) :
    ∃ t : Transcript,
      t.nonce = u.nonce ∧ Holds cipher tagLength mode t (u.ended fresh)
        ∧ u.encrypted fresh
          = mode.counters cipher.encrypt u.nonce
            (Mode.counterCount t.plaintext.length) := by
  obtain ⟨t, hnonce, hended, hdrawn⟩ :=
    (holds_begun h hu).drawnIn hu.continues
  have hended : Holds cipher tagLength mode t (u.ended fresh) := by
    unfold ended
    rwa [run_eq]
  refine ⟨t, hnonce, hended, ?_⟩
  have hmask : mode.counters cipher.encrypt u.nonce (Mode.counterCount 0)
      = [mode.maskBlock cipher.encrypt u.nonce] := rfl
  unfold encrypted
  rw [hended.maskBlock?_eq, hnonce]
  exact (congrArg (· ++ _) hmask).symm.trans hdrawn

end Use

/-- **No block is encrypted twice under a key.** Whatever a stream has
been used for before, in whatever pieces it is given a message, and with
whatever calls refused: the counter blocks of the message, the one under
its tag among them, are all different. Under different nonces none of
them is the same, which Galois/counter mode promises for nonces of
twelve bytes only; for these none is the zero block either, of which the
hash key is made. And in counter with CBC-MAC mode no message is opened
with a counter block, of its own or of another one, also where the tags
have different lengths. -/
theorem counterBlocks_never_repeat (mode : Mode) (key : Bytes)
    (hkey : key.length = 16 ∨ key.length = 24 ∨ key.length = 32)
    (tagLength₁ tagLength₂ : Nat)
    (htag₁ : acceptsTagLength mode tagLength₁ = true)
    (htag₂ : acceptsTagLength mode tagLength₂ = true) :
    ∃ fresh₁ fresh₂, ofKey mode key tagLength₁ = .ok fresh₁
      ∧ ofKey mode key tagLength₂ = .ok fresh₂
      ∧ ∀ u v : Use, u.Fits mode → v.Fits mode →
        (u.ended fresh₁).maskBlock?.isSome = true
        ∧ (u.encrypted fresh₁).Nodup
        ∧ (u.nonce ≠ v.nonce
            → (mode = .gcm → u.nonce.length = 12 ∧ v.nonce.length = 12) →
            (u.encrypted fresh₁).Disjoint (v.encrypted fresh₂))
        ∧ (mode = .gcm → u.nonce.length = 12 → Block.zero ∉ u.encrypted fresh₁)
        ∧ (mode = .ccm
            → ∃ opening, (v.ended fresh₂).openingBlock? = some opening
            ∧ opening ∉ u.encrypted fresh₁) := by
  obtain ⟨cipher, fresh₁, hcipher, hfresh₁, hkeyed₁⟩ :=
    exists_ofKey mode tagLength₁ hkey htag₁
  obtain ⟨cipher', fresh₂, hcipher', hfresh₂, hkeyed₂⟩ :=
    exists_ofKey mode tagLength₂ hkey htag₂
  obtain rfl : cipher = cipher' := Option.some.inj (hcipher.symm.trans hcipher')
  refine ⟨fresh₁, fresh₂, hfresh₁, hfresh₂, fun u v hu hv => ?_⟩
  obtain ⟨t, htu, hended₁, hencrypted₁⟩ := Use.encrypted_eq hkeyed₁ hu
  obtain ⟨w, hwv, hended₂, hencrypted₂⟩ := Use.encrypted_eq hkeyed₂ hv
  have hlimit : t.plaintext.length ≤ mode.maxMessageLength u.nonce :=
    htu ▸ hended₁.sound.message
  refine ⟨by rw [hended₁.maskBlock?_eq]; rfl, ?_, fun hne h12 => ?_,
    fun hmode h12 => ?_,
    fun hmode => ?_⟩
  · rw [hencrypted₁]
    exact mode.counters_nodup cipher.encrypt hu.nonce hlimit
  · rw [hencrypted₁, hencrypted₂]
    intro block hblock₁ hblock₂
    cases mode with
    | gcm =>
      obtain ⟨hlength₁, hlength₂⟩ := h12 rfl
      have hfront₁ := (Mode.mem_counters_gcm hlength₁ hblock₁).1
      have hfront₂ := (Mode.mem_counters_gcm hlength₂ hblock₂).1
      exact hne (hfront₁.symm.trans hfront₂)
    | ccm =>
      -- The nonces may have different lengths; then it is the flags that
      -- differ.
      have hmax₁ : u.nonce.length ≤ 12 := hu.nonce.2
      have hmax₂ : v.nonce.length ≤ 12 := hv.nonce.2
      obtain ⟨i, hi⟩ := Mode.mem_counters_ccm (by omega) hblock₁
      obtain ⟨j, hj⟩ := Mode.mem_counters_ccm (by omega) hblock₂
      exact hne (Ccm.counterBlock_inj (by omega) (by omega)
          (hi.symm.trans hj)).1
  · subst hmode
    rw [hencrypted₁]
    exact Mode.zero_notMem_counters_gcm cipher.encrypt h12 hlimit
  · subst hmode
    refine ⟨_, hended₂.openingBlock?_eq, fun hopening => ?_⟩
    rw [hencrypted₁] at hopening
    have hmax : u.nonce.length ≤ 12 := hu.nonce.2
    obtain ⟨i, hi⟩ := Mode.mem_counters_ccm (by omega) hopening
    exact Ccm.openingBlock_ne_counterBlock (List.contains_iff_mem.mp htag₂)
      (hwv ▸ hv.nonce)
      hu.nonce hi

/-- Two messages under neighbouring nonces in Galois/counter mode, the
second one begun with a refused call; and two in counter with CBC-MAC
mode, where one nonce goes on from the other. -/
theorem counterBlocks_never_repeat_neighbours :
    (∃ fresh, ofKey .gcm (Bytes.zeros 16) 16 = .ok fresh
      ∧ let u : Use :=
        ⟨[], Bytes.zeros 12, [.transform .encrypt (Bytes.zeros 40)]⟩
        let v : Use := ⟨[.transform .encrypt [1]], Bytes.zeros 11 ++ [1],
          [.tag [], .transform .decrypt (Bytes.zeros 17),
            .tag (Bytes.zeros 16)]⟩
        (u.encrypted fresh).Nodup
          ∧ (u.encrypted fresh).Disjoint (v.encrypted fresh)
          ∧ Block.zero ∉ u.encrypted fresh)
    ∧ ∃ fresh₄ fresh₁₆, ofKey .ccm (Bytes.zeros 16) 4 = .ok fresh₄
      ∧ ofKey .ccm (Bytes.zeros 16) 16 = .ok fresh₁₆
      ∧ let u : Use :=
        ⟨[], Bytes.zeros 8, [.transform .encrypt (Bytes.zeros 40)]⟩
        let v : Use :=
          ⟨[], Bytes.zeros 12, [.authenticate [2], .transform .decrypt [3]]⟩
        (u.encrypted fresh₄).Disjoint (v.encrypted fresh₁₆)
          ∧ ∃ opening, (v.ended fresh₁₆).openingBlock? = some opening
            ∧ opening ∉ u.encrypted fresh₄ := by
  constructor
  · obtain ⟨fresh, fresh', hfresh, hfresh', h⟩ :=
      counterBlocks_never_repeat .gcm (Bytes.zeros 16) (by decide) 16 16 rfl rfl
    obtain rfl : fresh = fresh' := Except.ok.inj (hfresh.symm.trans hfresh')
    refine ⟨fresh, hfresh, ?_⟩
    intro u v
    obtain ⟨-, hnodup, hdisjoint, hzero, -⟩ :=
      h u v ⟨by decide, by decide⟩ ⟨by decide, by decide⟩
    exact ⟨hnodup, hdisjoint (by decide) fun _ => ⟨rfl, rfl⟩, hzero rfl rfl⟩
  · obtain ⟨fresh₄, fresh₁₆, hfresh₄, hfresh₁₆, h⟩ :=
      counterBlocks_never_repeat .ccm (Bytes.zeros 16) (by decide) 4 16 rfl rfl
    refine ⟨fresh₄, fresh₁₆, hfresh₄, hfresh₁₆, ?_⟩
    intro u v
    obtain ⟨-, -, hdisjoint, -, hopening⟩ :=
      h u v ⟨by decide, by decide⟩ ⟨by decide, by decide⟩
    exact ⟨hdisjoint (by decide) nofun, hopening rfl⟩

end Stream

end Strongbox.Aead
