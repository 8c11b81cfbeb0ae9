import Strongbox.Proofs.Aead.Counters

/-!
# What a stream has the cipher encrypt

A block cipher is asked for single blocks, and a mode is as good as the
choice of blocks it asks for. That no block is asked for twice is said
of lists of blocks: `Stream.drawn` for the keystream,
`Stream.maskBlock?` for the tag, `Stream.openingBlock?` for the chain.
This module says that the lists leave nothing out, so that a statement
about them is one about the cipher.

The way to say so without looking into a cipher is to exchange it.
`Stream.withCipher` puts another cipher into a stream and leaves all
that has been computed as it is. If the two ciphers agree on the blocks
that are listed for a call, they may differ everywhere else, and the
call is answered alike and leaves the same stream (`step_congr`); so is
a whole history, if they agree on what is listed for each of its calls
(`run_congr`). A block that was encrypted and not listed would be one
where they differ.

## The blocks of a tag

A tag in Galois/counter mode has one block encrypted, the mask, since
the hash key has been made before and is kept. In counter with CBC-MAC
mode the chain encrypts a block for every block of the authenticated
input, each added to the result of the one before (`CbcMac.inputs`). The
first of them is the opening block as it stands and the last one
encrypted for a tag is the mask (`head?_tagBlocks`,
`getLast?_tagBlocks`).

## A message under way

From one nonce to the next the mask stays the same, so that in
Galois/counter mode all that is encrypted for a message is in
`Use.encrypted`, of which it is proved that nothing occurs in it twice
(`Use.run_congr`).
-/

namespace Strongbox

namespace CbcMac

variable (cipher : Block → Block)

/-- **The blocks that a chain has encrypted**, from a chaining value on:
each block of the input, added to the result of the one before it. What
they are depends on the cipher, except for the first. -/
def inputs (chain : Block) : List Block → List Block
  | [] => []
  | block :: rest =>
    chain.xor block :: inputs (link cipher chain block) rest

variable {cipher}

/-- **A chain depends on the cipher at the blocks it has encrypted**,
and nowhere else. The induction is over the blocks: as long as the two
ciphers agree, the two chains are one, and so are their next inputs. -/
theorem foldl_link_congr {cipher' : Block → Block} (chain : Block)
    (blocks : List Block)
    (h : ∀ b ∈ inputs cipher chain blocks, cipher' b = cipher b) :
    blocks.foldl (link cipher') chain
      = blocks.foldl (link cipher) chain := by
  induction blocks generalizing chain with
  | nil => rfl
  | cons block rest ih =>
    obtain ⟨hfirst, hrest⟩ := List.forall_mem_cons.mp h
    have hlink : link cipher' chain block = link cipher chain block :=
      hfirst
    rw [List.foldl_cons, List.foldl_cons, hlink, ih _ hrest]

end CbcMac

theorem Block.zero_xor (block : Block) : zero.xor block = block := by
  refine Vector.ext fun i hi => ?_
  rw [getElem_xor, getElem_zero, UInt8.zero_xor]

namespace Aead

variable {cipher cipher' : BlockCipher}

/-! ## The two modes under another cipher -/

namespace Gcm

/-- **A stream under another cipher.** What has been computed so far is
kept, the hash key and the keystream block at hand among it. -/
def withCipher (cipher' : BlockCipher) (g : Gcm) : Gcm :=
  { g with cipher := cipher' }

/-- A nonce of the natural length has nothing encrypted, and any other
is hashed under a key that has been made before: the cipher is not
asked. -/
theorem reset_withCipher (g : Gcm) (nonce : Bytes) :
    (g.withCipher cipher').reset nonce
      = (g.reset nonce).map (withCipher cipher') := by
  unfold Gcm.reset
  by_cases hn : nonce.isEmpty = true
  · rw [if_pos hn, if_pos hn]
    rfl
  · rw [if_neg hn, if_neg hn]
    rfl

/-- Associated data has nothing encrypted: it is hashed, under the key
that was made when the stream was. -/
theorem authenticate_withCipher (g : Gcm) (data : Bytes) :
    (g.withCipher cipher').authenticate data
      = (g.authenticate data).map (withCipher cipher') := by
  obtain ⟨cipher, origin, keystream, hash, aadLength, messageLength,
    inMessage⟩ := g
  unfold withCipher Gcm.authenticate
  cases inMessage with
  | true => rfl
  | false =>
    by_cases hl : aadLength + data.length > maxAadLength
    · simp only [Bool.false_eq_true, if_false, if_pos hl]
      rfl
    · simp only [Bool.false_eq_true, if_false, if_neg hl]
      rfl

/-- **A transform depends on the cipher at the counter blocks drawn for
it**, and one that is refused does not depend on it. The hypothesis is
therefore conditional on the piece staying within the limit. -/
theorem transform_congr (g : Gcm) (cipher' : BlockCipher)
    (direction : Direction) (piece : Bytes)
    (h : g.messageLength + piece.length ≤ maxMessageLength →
      ∀ b ∈ g.keystream.drawn g.cipher.encrypt nextCounter piece.length,
        cipher'.encrypt b = g.cipher.encrypt b) :
    (g.withCipher cipher').transform direction piece
      = (g.transform direction piece).map
          fun out => (out.1, out.2.withCipher cipher') := by
  unfold withCipher Gcm.transform
  by_cases hl : g.messageLength + piece.length > maxMessageLength
  · rw [if_pos hl, if_pos hl]
    rfl
  · have happly := Keystream.apply_congr g.keystream piece
      (h (Nat.le_of_not_lt hl))
    rw [if_neg hl, if_neg hl, beginMessage_eq, beginMessage_eq]
    dsimp only
    rw [happly]
    rfl

/-- **A tag depends on the cipher at the start block**, and one that is
refused does not depend on it. -/
theorem tag_congr (g : Gcm) (cipher' : BlockCipher) (n : Nat)
    (h : ¬(n = 0 ∨ n > maxTagLength) →
      cipher'.encrypt g.origin = g.cipher.encrypt g.origin) :
    (g.withCipher cipher').tag n = g.tag n := by
  unfold Gcm.tag
  by_cases hn : n = 0 ∨ n > maxTagLength
  · rw [if_pos hn, if_pos hn]
  · have hfull : (g.withCipher cipher').fullTag = g.fullTag :=
      congrArg (Block.xor · _) (h hn)
    rw [if_neg hn, if_neg hn, hfull]

end Gcm

namespace Ccm

/-- **A stream under another cipher.** The message is kept, with the
keystream block at hand. -/
def withCipher (cipher' : BlockCipher) (c : Ccm) : Ccm :=
  { c with cipher := cipher' }

/-- A nonce has nothing encrypted: the first counter block waits for the
first byte. -/
theorem reset_withCipher (c : Ccm) (nonce : Bytes) :
    (c.withCipher cipher').reset nonce
      = (c.reset nonce).map (withCipher cipher') := by
  unfold Ccm.reset
  by_cases hn : nonce.length < minNonceLength
      ∨ maxNonceLength < nonce.length
  · rw [if_pos hn, if_pos hn]
    rfl
  · rw [if_neg hn, if_neg hn]
    rfl

/-- Associated data has nothing encrypted: it is kept until a tag is
asked for. -/
theorem authenticate_withCipher (c : Ccm) (data : Bytes) :
    (c.withCipher cipher').authenticate data
      = (c.authenticate data).map (withCipher cipher') := by
  obtain ⟨cipher, tagLength, message?⟩ := c
  unfold withCipher Ccm.authenticate
  cases message? with
  | none => rfl
  | some m =>
    dsimp only
    by_cases hp : (!m.plaintext.isEmpty) = true
    · rw [if_pos hp, if_pos hp]
      rfl
    · rw [if_neg hp, if_neg hp]
      rfl

/-- **A transform depends on the cipher at the counter blocks drawn for
it**, and one that is refused does not depend on it, for a message that
has not been begun or that would get too long. -/
theorem transform_congr (c : Ccm) (cipher' : BlockCipher)
    (direction : Direction) (piece : Bytes)
    (h : ∀ m, c.message? = some m →
      m.plaintext.length + piece.length ≤ maxMessageLength m.nonce →
      ∀ b ∈ m.keystream.drawn c.cipher.encrypt (nextCounter m.nonce)
          piece.length,
        cipher'.encrypt b = c.cipher.encrypt b) :
    (c.withCipher cipher').transform direction piece
      = (c.transform direction piece).map
          fun out => (out.1, out.2.withCipher cipher') := by
  obtain ⟨cipher, tagLength, message?⟩ := c
  unfold withCipher Ccm.transform
  cases message? with
  | none => rfl
  | some m =>
    dsimp only
    by_cases hl : m.plaintext.length + piece.length
        > maxMessageLength m.nonce
    · rw [if_pos hl, if_pos hl]
      rfl
    · have happly := Keystream.apply_congr m.keystream piece
        (h m rfl (Nat.le_of_not_lt hl))
      rw [if_neg hl, if_neg hl, happly]
      rfl

/-- **A tag depends on the cipher at the blocks of the chain and at the
mask.** The chain is made when the tag is asked for, so that all of its
blocks are encrypted then. -/
theorem tag_congr (c : Ccm) (cipher' : BlockCipher) (n : Nat)
    (h : ∀ m, c.message? = some m → n = c.tagLength →
      ∀ b ∈ CbcMac.inputs c.cipher.encrypt Block.zero
            (macBlocks c.tagLength m.nonce m.aad m.plaintext)
          ++ [counterBlock m.nonce 0],
        cipher'.encrypt b = c.cipher.encrypt b) :
    (c.withCipher cipher').tag n = c.tag n := by
  obtain ⟨cipher, tagLength, message?⟩ := c
  unfold withCipher Ccm.tag
  cases message? with
  | none => rfl
  | some m =>
    dsimp only
    by_cases hn : n ≠ tagLength
    · rw [if_pos hn, if_pos hn]
    · obtain ⟨hchain, hmask⟩ :=
        List.forall_mem_append.mp (h m rfl (not_not.mp hn))
      have hmac : m.mac cipher'.encrypt tagLength
          = m.mac cipher.encrypt tagLength := by
        rw [m.mac_eq, m.mac_eq]
        exact CbcMac.foldl_link_congr Block.zero _ hchain
      rw [if_neg hn, if_neg hn, hmac, hmask _ (List.mem_singleton_self _)]

end Ccm

namespace Stream

/-! ## The blocks of a call -/

/-- **The blocks that a tag has encrypted**, in order: the chain over
the authenticated input, in the mode that has one, and the mask. -/
def tagBlocks : Stream → List Block
  | gcm g => [g.origin]
  | ccm c =>
    match c.message? with
    | none => []
    | some m =>
      CbcMac.inputs c.cipher.encrypt Block.zero
          (Ccm.macBlocks c.tagLength m.nonce m.aad m.plaintext)
        ++ [Ccm.counterBlock m.nonce 0]

/-- **The blocks that a call has encrypted.** A call that is refused has
none encrypted, and neither has one that transforms nothing and asks for
no tag. A tag has the whole chain encrypted each time it is asked for. -/
def encrypts (s : Stream) : Call → List Block
  | .tag buffer =>
    match s.tag buffer.length with
    | .ok _ => s.tagBlocks
    | .error _ => []
  | call => s.drawn call

/-- **The blocks that a history of calls has encrypted**, in order. Each
call is looked at in the state that those before it have left. -/
def encryptsIn (s : Stream) : List Call → List Block
  | [] => []
  | call :: calls => s.encrypts call ++ (s.step call).2.encryptsIn calls

/-- **A stream under another cipher**, with all that has been computed
so far. -/
def withCipher (cipher' : BlockCipher) : Stream → Stream
  | gcm g => gcm (g.withCipher cipher')
  | ccm c => ccm (c.withCipher cipher')

variable {tagLength : Nat} {mode : Mode} {t : Transcript} {s : Stream}

@[simp] theorem cipher_withCipher (s : Stream) (cipher' : BlockCipher) :
    (s.withCipher cipher').cipher = cipher' := by
  cases s <;> rfl

@[simp] theorem withCipher_self (s : Stream) : s.withCipher s.cipher = s := by
  cases s <;> rfl

/-- **The last block that a tag has encrypted is its mask.** In the mode
that chains, the blocks of the chain come before it. -/
theorem getLast?_tagBlocks (s : Stream) :
    s.tagBlocks.getLast? = s.maskBlock? := by
  cases s with
  | gcm g => rfl
  | ccm c =>
    obtain ⟨cipher, tagLength, message?⟩ := c
    cases message? with
    | none => rfl
    | some m => exact List.getLast?_concat ..

/-- **The first block that a tag has encrypted is the opening block**,
in the mode that has one: the chain begins at zero. -/
theorem head?_tagBlocks {opening : Block}
    (h : s.openingBlock? = some opening) :
    s.tagBlocks.head? = some opening := by
  cases s with
  | gcm g => cases h
  | ccm c =>
    obtain ⟨cipher, tagLength, message?⟩ := c
    cases message? with
    | none => cases h
    | some m =>
      obtain rfl := Option.some.inj h
      exact congrArg some (Block.zero_xor _)

/-! ## One call -/

/-- **A step of a mode is a step of the stream.** What another cipher
makes of a result in the mode, it makes of the result as the stream's,
and a refusal is the same for both. -/
theorem map_eq_of_comm {α β : Type} {x y : Except StreamError α} {f : α → α}
    {lift : α → β} {f' : β → β} (h : x = y.map f)
    (hcomm : ∀ a, lift (f a) = f' (lift a)) :
    x.map lift = (y.map lift).map f' := by
  subst h
  cases y with
  | error e => rfl
  | ok a => exact congrArg Except.ok (hcomm a)

/-- A nonce has nothing encrypted, in either mode: a reset goes the same
way under any other cipher. -/
theorem reset_withCipher (s : Stream) (nonce : Bytes) :
    (s.withCipher cipher').reset nonce
      = (s.reset nonce).map (withCipher cipher') := by
  cases s with
  | gcm g => exact map_eq_of_comm (g.reset_withCipher nonce) fun _ => rfl
  | ccm c => exact map_eq_of_comm (c.reset_withCipher nonce) fun _ => rfl

/-- Associated data has nothing encrypted, in either mode. It is hashed
or kept, and the hash key was made by the constructor. -/
theorem authenticate_withCipher (s : Stream) (data : Bytes) :
    (s.withCipher cipher').authenticate data
      = (s.authenticate data).map (withCipher cipher') := by
  cases s with
  | gcm g =>
    exact map_eq_of_comm (g.authenticate_withCipher data) fun _ => rfl
  | ccm c =>
    exact map_eq_of_comm (c.authenticate_withCipher data) fun _ => rfl

/-- **A transform depends on the cipher at the blocks drawn for it**, in
either mode: those that `drawn` lists for the call, none if it is
refused. -/
theorem transform_congr (s : Stream) (cipher' : BlockCipher)
    (direction : Direction) (piece : Bytes)
    (h : ∀ b ∈ s.drawn (.transform direction piece),
      cipher'.encrypt b = s.cipher.encrypt b) :
    (s.withCipher cipher').transform direction piece
      = (s.transform direction piece).map
          fun out => (out.1, out.2.withCipher cipher') := by
  -- A piece that is not refused draws what it needs of the keystream.
  have hdrawn (hok : ∃ out, s.transform direction piece = .ok out) :
      ∀ b ∈ s.keystreamBlocks piece.length,
        cipher'.encrypt b = s.cipher.encrypt b := by
    obtain ⟨out, hout⟩ := hok
    unfold drawn at h
    simpa only [hout] using h
  cases s with
  | gcm g =>
    have hmode := g.transform_congr cipher' direction piece
      fun hl => hdrawn ⟨_, congrArg (Except.map _)
        (if_neg (Nat.not_lt_of_le hl))⟩
    exact map_eq_of_comm hmode fun _ => rfl
  | ccm c =>
    obtain ⟨cipher, tagLength, message?⟩ := c
    have hmode := Ccm.transform_congr ⟨cipher, tagLength, message?⟩ cipher'
      direction piece fun m hm hl => by
        obtain rfl : message? = some m := hm
        exact hdrawn ⟨_, congrArg (Except.map _)
          (if_neg (Nat.not_lt_of_le hl))⟩
    exact map_eq_of_comm hmode fun _ => rfl

/-- **A tag depends on the cipher at the chain and at the mask**: at
what `encrypts` lists for the call. -/
theorem tag_congr (s : Stream) (cipher' : BlockCipher) (buffer : Bytes)
    (h : ∀ b ∈ s.encrypts (.tag buffer),
      cipher'.encrypt b = s.cipher.encrypt b) :
    (s.withCipher cipher').tag buffer.length = s.tag buffer.length := by
  have hblocks (hok : ∃ tag, s.tag buffer.length = .ok tag) :
      ∀ b ∈ s.tagBlocks, cipher'.encrypt b = s.cipher.encrypt b := by
    obtain ⟨tag, htag⟩ := hok
    unfold encrypts at h
    simpa only [htag] using h
  cases s with
  | gcm g =>
    exact g.tag_congr cipher' buffer.length fun hn =>
      hblocks ⟨_, if_neg hn⟩ g.origin (List.mem_singleton_self _)
  | ccm c =>
    obtain ⟨cipher, tagLength, message?⟩ := c
    exact Ccm.tag_congr ⟨cipher, tagLength, message?⟩ cipher'
      buffer.length fun m hm hn => by
        obtain rfl : message? = some m := hm
        exact hblocks ⟨_, if_neg (not_not.mpr hn)⟩

/-- **A call depends on the cipher at the blocks it has encrypted**, in
its answer and in the stream it leaves. -/
theorem step_congr (s : Stream) (cipher' : BlockCipher) (call : Call)
    (h : ∀ b ∈ s.encrypts call, cipher'.encrypt b = s.cipher.encrypt b) :
    (s.withCipher cipher').step call
      = ((s.step call).1, (s.step call).2.withCipher cipher') := by
  unfold Stream.step
  cases call with
  | reset nonce =>
    dsimp only
    rw [reset_withCipher]
    cases s.reset nonce <;> rfl
  | authenticate data =>
    dsimp only
    rw [authenticate_withCipher]
    cases s.authenticate data <;> rfl
  | transform direction piece =>
    dsimp only
    rw [s.transform_congr cipher' direction piece h]
    cases s.transform direction piece <;> rfl
  | tag buffer =>
    dsimp only
    rw [s.tag_congr cipher' buffer h]
    cases s.tag buffer.length <;> rfl

/-! ## Histories -/

/-- No call changes the cipher. -/
theorem cipher_step (s : Stream) (call : Call) :
    (s.step call).2.cipher = s.cipher := by
  have hsame := s.step_congr s.cipher call fun _ _ => rfl
  rw [withCipher_self] at hsame
  exact (congrArg (·.2.cipher) hsame).trans (cipher_withCipher _ _)

/-- **A history depends on the cipher at the blocks it has encrypted**:
every answer in it, and the stream after it. -/
theorem run_congr (s : Stream) (cipher' : BlockCipher)
    (calls : List Call)
    (h : ∀ b ∈ s.encryptsIn calls,
      cipher'.encrypt b = s.cipher.encrypt b) :
    (s.withCipher cipher').run calls
      = ((s.run calls).1, (s.run calls).2.withCipher cipher') := by
  induction calls generalizing s with
  | nil => rfl
  | cons call calls ih =>
    obtain ⟨hcall, hcalls⟩ := List.forall_mem_append.mp h
    have hnext := ih (s.step call).2 fun b hb =>
      (hcalls b hb).trans (congrArg (·.encrypt b) (s.cipher_step call).symm)
    show (((s.withCipher cipher').step call).1 ::
      (((s.withCipher cipher').step call).2.run calls).1,
        (((s.withCipher cipher').step call).2.run calls).2) = _
    rw [s.step_congr cipher' call hcall, hnext]
    rfl

/-! ## A message under way -/

/-- What a tag has encrypted is among the blocks of the tag of the
stream, also when the tag is refused and nothing is. -/
theorem mem_tagBlocks_of_mem_encrypts (s : Stream) {buffer : Bytes}
    {b : Block} (h : b ∈ s.encrypts (.tag buffer)) : b ∈ s.tagBlocks := by
  unfold encrypts at h
  cases htag : s.tag buffer.length with
  | error e =>
    simp only [htag] at h
    cases h
  | ok tag => simpa only [htag] using h

/-- A tag in Galois/counter mode has its mask encrypted and nothing
else. -/
theorem Holds.tagBlocks_gcm (h : Holds cipher tagLength .gcm t s) :
    s.tagBlocks = [Mode.gcm.maskBlock cipher.encrypt t.nonce] := by
  cases h with
  | gcm h => exact congrArg ([·]) h.origin_eq

/-- **From one nonce to the next, Galois/counter mode has nothing
encrypted but the mask and the counter blocks drawn**: every tag that is
asked for on the way has the same mask. -/
theorem Holds.mem_encryptsIn (h : Holds cipher tagLength .gcm t s)
    {calls : List Call} (hc : ∀ call ∈ calls, call.continues = true)
    {b : Block} (hb : b ∈ s.encryptsIn calls) :
    b = Mode.gcm.maskBlock cipher.encrypt t.nonce ∨ b ∈ s.drawnIn calls := by
  induction calls generalizing t s with
  | nil => exact Or.inr hb
  | cons call calls ih =>
    have hnext := (h.step (hc call (List.mem_cons_self ..))).2
    obtain hcall | hcalls := List.mem_append.mp hb
    · cases call with
      | tag buffer =>
        have htag := s.mem_tagBlocks_of_mem_encrypts hcall
        rw [h.tagBlocks_gcm] at htag
        exact Or.inl (List.mem_singleton.mp htag)
      | _ => exact Or.inr (List.mem_append_left _ hcall)
    · exact (ih hnext (fun c hm => hc c (List.mem_cons_of_mem _ hm))
        hcalls).imp_right (List.mem_append_right _)

/-- **The answers to a message depend on the cipher at the blocks of the
message**, in Galois/counter mode: at the block under its tag and at its
counter blocks, of which no two are the same. -/
theorem Use.run_congr {u : Use} {fresh : Stream}
    (h : Keyed cipher tagLength .gcm fresh) (hu : u.Fits .gcm)
    (cipher' : BlockCipher)
    (hagree : ∀ b ∈ u.encrypted fresh,
      cipher'.encrypt b = cipher.encrypt b) :
    ((u.begun fresh).withCipher cipher').run u.calls
      = (((u.begun fresh).run u.calls).1,
          (u.ended fresh).withCipher cipher') := by
  have hbegun := holds_begun h hu
  obtain ⟨t, hnonce, hended, -⟩ := encrypted_eq h hu
  have hmask : (u.ended fresh).maskBlock?.toList
      = [Mode.gcm.maskBlock cipher.encrypt u.nonce] := by
    rw [hended.maskBlock?_eq, hnonce]
    rfl
  refine Stream.run_congr _ cipher' u.calls fun b hb => ?_
  rw [hbegun.keyed.cipher_eq]
  refine hagree b ?_
  unfold encrypted
  rw [hmask]
  obtain rfl | hdrawn := hbegun.mem_encryptsIn hu.continues hb
  · exact List.mem_append_left _ (List.mem_singleton_self _)
  · exact List.mem_append_right _ hdrawn

end Stream

end Aead

end Strongbox
