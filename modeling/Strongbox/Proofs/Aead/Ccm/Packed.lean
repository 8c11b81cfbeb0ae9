import Strongbox.Aead.Ccm.Packed
import Strongbox.Proofs.Aead.Ccm
import Strongbox.Proofs.Buffer
import Strongbox.Proofs.Increment
import Strongbox.Proofs.Stretches

/-!
# Counter with CBC-MAC mode in memory

`Message.pack` lays a message out in memory. The message alone does not
decide what lies there: the chaining value is what the latest tag has
left, and of the two buffers only the elements are the message's.
`Ccm.Packs` therefore relates a stream in memory to a stream, and each
call is shown to end without a fault and to leave the two related.

Nearly all that can go wrong here hangs on the length of the nonce, from
which the width of a number, its place in a block and the length of the
longest message are computed. Before the first nonce that length is
zero, and every call but a reset looks at it before it computes
anything; after it the length is one that the mode takes, and stays.

* `CbcMac.pack` and the lemmas on it bring a chain into the range in
  which it runs: one byte, a list of them, and the boundary.
* `carry_eq` and `put_carry` are about the counter: carrying one byte by
  byte, from the last one on, adds one to the number.
* `formatBlock_pack` is the block around a nonce, in its two uses, and
  `exists_encodeAadLength` the length in front of associated data.
* `Packs.reset`, `Packs.authenticate`, `Packs.transform` and `Packs.tag`
  are the calls. Only associated data has a bound in them: everything
  else is limited by the mode before a word is too narrow for it.
-/

namespace Strongbox

open Checked

/-! ## Chains -/

namespace CbcMac

variable {cipher : BlockCipher} {mac : CbcMac}

/-- **A chain in the range in which it runs**: the chaining value with
the bytes added to it, and how many of the block under way there are. -/
def pack (mac : CbcMac) : Packed := ⟨mac.chain.toBytes, mac.filled⟩

/-- A chain begins in its range whatever the range has held, because the
first thing is to clear it. -/
theorem start_pack (mac : CbcMac) :
    Packed.start mac.pack.state = mac.restart.pack := by
  unfold Packed.start
  rw [restart_eq, show mac.pack.state = mac.chain.toBytes from rfl,
    Block.length_toBytes]
  rfl

/-- A byte leaves room in the block: when it is the last one, the block
is encrypted and the next begins. -/
theorem filled_push_lt (cipher : BlockCipher) (h : mac.filled < 16)
    (byte : UInt8) :
    (mac.push cipher.encrypt byte).filled < 16 := by
  unfold push
  split
  · show mac.filled + 1 < 16
    omega
  · exact Nat.zero_lt_succ 15

/-- **One byte is taken in without a fault.** The place it is added to
is within the block, and when the block is full the place goes back to
zero before there can be another byte. -/
theorem pack_push (h : mac.filled < 16) (byte : UInt8) :
    Packed.push cipher mac.pack byte
      = .ok (mac.push cipher.encrypt byte).pack := by
  obtain ⟨chain, filled⟩ := mac
  replace h : filled < 16 := h
  have hcount : add filled 1 = .ok (filled + 1) :=
    add_eq (by unfold wordLimit; omega)
  unfold Packed.push pack
  dsimp only
  rw [byteAt_toBytes h, ok_bind, setByte_toBytes h, ok_bind, hcount, ok_bind]
  by_cases hroom : filled < 15
  · have hpush : push cipher.encrypt ⟨chain, filled⟩ byte
        = ⟨chain.set filled (chain[filled] ^^^ byte), filled + 1⟩ :=
          dif_pos hroom
    rw [if_neg (by omega), hpush]
    rfl
  · obtain rfl : filled = 15 := by omega
    rw [if_pos rfl, encrypt_toBytes]
    rfl

/-- **Bytes are taken in one by one**, and none of them is written
beside the block. -/
theorem pack_update (cipher : BlockCipher) (h : mac.filled < 16)
    (data : Bytes) :
    Packed.update cipher mac.pack data
      = .ok (mac.absorb cipher.encrypt data).pack
      ∧ (mac.absorb cipher.encrypt data).filled < 16 := by
  induction data generalizing mac with
  | nil => exact ⟨rfl, h⟩
  | cons byte rest ih =>
    have hrest := ih (filled_push_lt cipher h byte)
    unfold Packed.update
    rw [List.foldlM_cons, pack_push h, ok_bind]
    exact hrest

/-- A boundary completes a block that is under way, and does nothing
where none is. -/
theorem pack_pad (mac : CbcMac) :
    Packed.pad cipher mac.pack = .ok (mac.pad cipher.encrypt).pack := by
  unfold Packed.pad pad
  rw [show mac.pack.filled = mac.filled from rfl]
  by_cases h : mac.filled = 0
  · rw [if_neg (Nat.not_lt_of_le (Nat.le_of_eq h)), if_pos h]
    rfl
  · rw [if_pos (Nat.pos_of_ne_zero h), if_neg h,
      show mac.pack.state = mac.chain.toBytes from rfl,
      encrypt_toBytes]
    rfl

/-- Behind a boundary no block is under way. So a list of calls never
meets a chain whose place is outside its block. -/
theorem filled_pad_lt (cipher : BlockCipher) (h : mac.filled < 16) :
    (mac.pad cipher.encrypt).filled < 16 := by
  unfold pad
  split
  · exact h
  · exact Nat.zero_lt_succ 15

end CbcMac

namespace Aead.Ccm

open Ccm.Packed

/-- The low bytes of a number, out of all eight: those at the end, since
the most significant comes first. -/
theorem slice_lowBytes {w : Nat} (h : w ≤ 8) (number : Nat) :
    slice (Bytes.bigEndian 8 number) (8 - w) (Bytes.bigEndian 8 number).length
      = .ok (Bytes.bigEndian w number) := by
  have hdrop := Bytes.drop_bigEndian (8 - w) w number
  rw [Nat.sub_add_cancel h] at hdrop
  rw [slice_length (by rw [Bytes.length_bigEndian]; exact Nat.sub_le 8 w),
    hdrop]

/-- **Carrying one into a number** is writing the next number. The carry
goes from the least significant byte to the first that does not come
round, and the induction goes with it. -/
theorem carry_eq (bytes : Bytes) :
    carry bytes
      = Bytes.littleEndian bytes.length (Bytes.ofLittleEndian bytes + 1) := by
  induction bytes with
  | nil => rfl
  | cons byte rest ih =>
    have hread : Bytes.ofLittleEndian (byte :: rest) + 1
        = byte.toNat + 1 + 256 * Bytes.ofLittleEndian rest :=
      Nat.add_right_comm byte.toNat (256 * Bytes.ofLittleEndian rest) 1
    have hhead : UInt8.ofNat (byte.toNat + 1 + 256 * Bytes.ofLittleEndian rest)
      = byte + 1 := by
      refine UInt8.toNat_inj.mp ?_
      rw [UInt8.toNat_ofNat', UInt8.toNat_add]
      exact Nat.add_mul_mod_self_left (byte.toNat + 1) 256 _
    rw [carry, List.length_cons, Bytes.littleEndian, hread, hhead,
      Nat.add_mul_div_left _ _ (by decide)]
    have hlt := byte.toNat_lt
    by_cases hzero : byte + 1 = 0
    · -- the byte was the highest, and the one goes on
      have hmax : byte.toNat = 255 := by
        have hmod : (byte.toNat + 1) % 256 = 0 := by
          have htoNat := congrArg UInt8.toNat hzero
          rwa [UInt8.toNat_add] at htoNat
        omega
      rw [if_neg (not_not_intro hzero), hzero, hmax, ih, Nat.add_comm 1]
    · have hsmall : byte.toNat + 1 < 256 := by
        refine Nat.lt_of_le_of_ne hlt fun hmax => hzero (UInt8.toNat_inj.mp ?_)
        rw [UInt8.toNat_add,
          show byte.toNat + (1 : UInt8).toNat = 256 from hmax]
        rfl
      rw [if_pos hzero, Nat.div_eq_of_lt hsmall, Nat.zero_add,
        Bytes.littleEndian_ofLittleEndian]

/-- One carried into the last bytes of a block, which are turned round
for it and back. -/
theorem put_carry {k : Nat} (hk : k ≤ 16) (b : Block) :
    put b.toBytes (16 - k) b.toBytes.length
      (carry (b.toBytes.drop (16 - k)).reverse).reverse
        = .ok (b.increment k).toBytes := by
  have hlen : (b.toBytes.drop (16 - k)).reverse.length = k := by
    rw [List.length_reverse, List.length_drop, Block.length_toBytes]
    omega
  have hnumber : (carry (b.toBytes.drop (16 - k)).reverse).reverse
      = Bytes.bigEndian k (b.low k + 1) := by
    rw [carry_eq, hlen, ← Bytes.ofBigEndian_eq]
    rfl
  rw [hnumber,
    put_length (by rw [Bytes.length_bigEndian, Block.length_toBytes]; omega),
    Block.toBytes_increment b hk]

/-! ## Messages in memory -/

/-- **A message that can come up**: what the operations in memory rely
on and every operation keeps. -/
structure Message.Sound (m : Message) : Prop where
  /-- The nonce is one that the mode takes. -/
  nonce : Mode.ccm.TakesNonce m.nonce
  /-- No more of the keystream block is spent than there is. -/
  spent : m.keystream.spent ≤ 16
  /-- The message is within its limit. -/
  length : m.plaintext.length ≤ Ccm.maxMessageLength m.nonce

/-- **A message laid out in memory**, with the chaining value of the
latest tag and two buffers. -/
def Message.pack (m : Message) (cipher : BlockCipher) (tagLength : Nat)
    (mac : Block) (aad message : Buffer UInt8) : Packed where
  cipher
  tagLength
  row := Block.row
    [m.keystream.counter, m.keystream.block, mac, Block.ofBytes m.nonce]
  aad
  message
  nonceLength := m.nonce.length
  keystreamPosition := m.keystream.spent

section

variable {cipher : BlockCipher} {tagLength : Nat} {aad message : Buffer UInt8}
  {m : Message}
  (mac : Block)

theorem nonceLength_pack :
    (m.pack cipher tagLength mac aad message).nonceLength = m.nonce.length :=
    rfl

theorem keystreamPosition_pack :
    (m.pack cipher tagLength mac aad message).keystreamPosition
      = m.keystream.spent := rfl

/-- **A stretch of the message**, which does not go beyond the keystream
block at hand, is combined with it byte by byte. -/
theorem stretch_pack {piece : Bytes}
    (hroom : m.keystream.spent + piece.length ≤ 16) :
    (m.pack cipher tagLength mac aad message).stretch piece
      = .ok ((m.keystream.apply cipher.encrypt (nextCounter m.nonce) piece).1,
          Message.pack { m with
            keystream :=
              (m.keystream.apply cipher.encrypt (nextCounter m.nonce) piece).2 }
              cipher tagLength mac aad message) := by
  have hstart : add keystreamAt m.keystream.spent
    = .ok (keystreamAt + m.keystream.spent) :=
    add_eq (by unfold wordLimit keystreamAt counterAt; omega)
  have hstop : add (keystreamAt + m.keystream.spent) piece.length
      = .ok (keystreamAt + m.keystream.spent + piece.length) :=
    add_eq (by unfold wordLimit keystreamAt counterAt; omega)
  have hcount : add m.keystream.spent piece.length
    = .ok (m.keystream.spent + piece.length) :=
    add_eq (by unfold wordLimit; omega)
  have hmask : slice (m.pack cipher tagLength mac aad message).row
      (keystreamAt + m.keystream.spent)
        (keystreamAt + m.keystream.spent + piece.length)
          = .ok ((m.keystream.block.toBytes.drop m.keystream.spent).take
              piece.length) :=
    slice_within [m.keystream.counter] [mac, Block.ofBytes m.nonce]
      m.keystream.block hroom
  unfold stretch
  rw [keystreamPosition_pack, hstart, ok_bind, hstop, ok_bind, hmask, ok_bind,
    hcount,
    Keystream.apply_stretch _ _ hroom]
  rfl

variable (h : Mode.ccm.TakesNonce m.nonce)

include h

/-- The width of a number is computed without going below zero, under a
nonce that the mode takes. -/
theorem lengthWidth_pack :
    (m.pack cipher tagLength mac aad message).lengthWidth
      = .ok (lengthWidth m.nonce) := by
  have hle : m.nonce.length ≤ 12 := h.2
  exact sub_eq (by rw [nonceLength_pack]; omega)

/-- The nonce is read as it was given. It stands at its own place in the
row, whose bytes behind its length are never read. -/
theorem slice_nonce :
    slice (m.pack cipher tagLength mac aad message).row nonceAt
      (nonceAt + m.nonce.length)
        = .ok m.nonce := by
  have hle : m.nonce.length ≤ 16 := Nat.le_trans h.2 (by decide)
  have hslice := slice_within [m.keystream.counter, m.keystream.block, mac] []
    (Block.ofBytes m.nonce) (i := 0) (n := m.nonce.length) (by omega)
  rwa [List.drop_zero, Block.take_toBytes_ofBytes hle] at hslice

/-- **A block around the nonce, written in memory**: flags, nonce and a
number of the width that is left, with nothing beyond the sixteen bytes. -/
theorem formatBlock_pack (flags number : Nat) :
    (m.pack cipher tagLength mac aad message).formatBlock
        (UInt8.ofNat flags) number
      = .ok (nonceBlock flags m.nonce number).toBytes := by
  have hge : 8 ≤ m.nonce.length := h.1
  have hle : m.nonce.length ≤ 12 := h.2
  have hwidth : lengthWidth m.nonce ≤ 8 := by unfold lengthWidth; omega
  have hflags : setByte (Bytes.zeros 16) 0 (UInt8.ofNat flags)
      = .ok (UInt8.ofNat flags :: Bytes.zeros 15) := rfl
  have hnumberAt : add 1 m.nonce.length = .ok (1 + m.nonce.length) :=
    add_eq (by unfold wordLimit; omega)
  have hstop : add nonceAt m.nonce.length = .ok (nonceAt + m.nonce.length) :=
    add_eq (by unfold wordLimit nonceAt macAt keystreamAt counterAt; omega)
  have hfrom : sub 8 (lengthWidth m.nonce) = .ok (8 - lengthWidth m.nonce) :=
    sub_eq hwidth
  have hcopy :
    put (UInt8.ofNat flags :: Bytes.zeros 15) 1 (1 + m.nonce.length) m.nonce
      = .ok (UInt8.ofNat flags :: m.nonce
          ++ Bytes.zeros (15 - m.nonce.length)) := by
    have hput : put ([UInt8.ofNat flags] ++ Bytes.zeros m.nonce.length
        ++ Bytes.zeros (15 - m.nonce.length)) 1 (1 + m.nonce.length) m.nonce
          = .ok ([UInt8.ofNat flags] ++ m.nonce
              ++ Bytes.zeros (15 - m.nonce.length)) :=
      put_append rfl (by rw [Bytes.length_zeros]) (by rw [Bytes.length_zeros])
    rwa [List.append_assoc, Bytes.zeros_append_zeros,
      Nat.add_sub_cancel' (by omega)] at hput
  have hrest :
    1 + m.nonce.length + (Bytes.bigEndian (lengthWidth m.nonce) number).length
      = (UInt8.ofNat flags :: m.nonce
          ++ Bytes.zeros (15 - m.nonce.length)).length := by
    rw [Bytes.length_bigEndian, List.length_append, List.length_cons,
      Bytes.length_zeros,
      lengthWidth]
    omega
  have hfill := put_length hrest
  unfold formatBlock
  rw [lengthWidth_pack mac h, ok_bind, hflags, ok_bind, nonceLength_pack,
    hnumberAt, ok_bind, hstop,
    ok_bind, slice_nonce mac h, ok_bind, hcopy, ok_bind]
  dsimp only
  rw [hfrom, ok_bind, slice_lowBytes hwidth, ok_bind, hfill,
    toBytes_nonceBlock _ _ _ (by omega),
    List.take_left' (by rw [List.length_cons, Nat.add_comm])]

/-- **The next keystream block**, made and written beside its counter
block. -/
theorem nextKeystreamBlock_pack :
    (m.pack cipher tagLength mac aad message).nextKeystreamBlock
      = .ok (Message.pack { m with keystream :=
          ⟨nextCounter m.nonce m.keystream.counter,
            cipher.encrypt m.keystream.counter, 0⟩ }
            cipher tagLength mac aad message) := by
  have hwidth : lengthWidth m.nonce ≤ 16 :=
    Nat.le_trans (Nat.sub_le 15 _) (by decide)
  have hlength : sub 15 (m.pack cipher tagLength mac aad message).nonceLength
      = .ok (lengthWidth m.nonce) := lengthWidth_pack mac h
  have hread :
    slice (m.pack cipher tagLength mac aad message).row counterAt macAt
      = .ok (m.keystream.counter.toBytes ++ m.keystream.block.toBytes) := by
    rw [← Block.row_pair]
    exact slice_row [] [m.keystream.counter, m.keystream.block] _
  have hcopy : put m.keystream.block.toBytes 0 m.keystream.block.toBytes.length
      m.keystream.counter.toBytes = .ok m.keystream.counter.toBytes :=
    put_whole (by rw [Block.length_toBytes, Block.length_toBytes])
  have hnumberAt : sub 16 (lengthWidth m.nonce)
    = .ok (16 - lengthWidth m.nonce) := sub_eq hwidth
  have hnumber : slice m.keystream.counter.toBytes (16 - lengthWidth m.nonce)
      m.keystream.counter.toBytes.length
        = .ok (m.keystream.counter.toBytes.drop (16 - lengthWidth m.nonce)) :=
    slice_length (by rw [Block.length_toBytes]; exact Nat.sub_le 16 _)
  have hwrite (counter block : Block) :
      put (m.pack cipher tagLength mac aad message).row counterAt macAt
          (counter.toBytes ++ block.toBytes)
        = .ok (Message.pack { m with keystream := ⟨counter, block, 0⟩ }
            cipher tagLength mac aad message).row := by
    rw [← Block.row_pair]
    exact put_row [] [m.keystream.counter, m.keystream.block] _ rfl
  unfold nextKeystreamBlock
  rw [hread, ok_bind, splitAt_append m.keystream.counter.length_toBytes,
    ok_bind]
  dsimp only
  rw [hcopy, ok_bind,
    show (m.pack cipher tagLength mac aad message).cipher = cipher from rfl,
    encrypt_toBytes, ok_bind, hlength, ok_bind, hnumberAt, ok_bind,
    hnumber, ok_bind, put_carry hwidth, ok_bind, hwrite]
  rfl

/-- **A block to hand out from**: a new one where the last has been
handed out, and else the one at hand. -/
theorem refill_pack :
    (if (m.pack cipher tagLength mac aad message).keystreamPosition = 16
      then (m.pack cipher tagLength mac aad message).nextKeystreamBlock
      else pure (m.pack cipher tagLength mac aad message))
        = .ok (Message.pack { m with
            keystream :=
              m.keystream.refill cipher.encrypt (nextCounter m.nonce) }
              cipher tagLength mac aad message) := by
  unfold Keystream.refill
  rw [keystreamPosition_pack]
  by_cases hspent : m.keystream.spent = 16
  · rw [if_pos hspent, if_pos hspent, nextKeystreamBlock_pack mac h]
  · rw [if_neg hspent, if_neg hspent]
    rfl

end

/-- **A buffer is combined with the keystream**, as much of it at once
as there is of the block. -/
theorem Message.Sound.applyKeystream_pack {m : Message} (h : m.Sound)
    (cipher : BlockCipher) (tagLength : Nat) (aad message : Buffer UInt8)
    (mac : Block) {buffer : Bytes} (hbuffer : buffer.length < 2 ^ 61)
    (done : Bytes) {offset : Nat} (hoffset : offset ≤ buffer.length) :
    (m.pack cipher tagLength mac aad message).applyKeystream buffer done offset
      = .ok (done ++
            (m.keystream.apply cipher.encrypt (nextCounter m.nonce)
                (buffer.drop offset)).1,
          Message.pack { m with
            keystream :=
              (m.keystream.apply cipher.encrypt (nextCounter m.nonce)
                  (buffer.drop offset)).2 }
                cipher tagLength mac aad message) := by
  rw [applyKeystream]
  by_cases hend : offset < buffer.length
  · -- The stretch is cut off by the block that there is after the refill.
    have hrefill {piece : Bytes} (hne : piece ≠ []) :=
      Keystream.apply_refill cipher.encrypt (nextCounter m.nonce)
        (k := m.keystream) hne
    have hlt :=
      Keystream.spent_refill_lt cipher.encrypt (nextCounter m.nonce) h.spent
    obtain ⟨stop, piece, hstop, hpiece, hcut, hmore, hle, hroom, hne⟩ :=
      exists_stretch hlt hend hbuffer
    have hnext : Message.Sound { m with
        keystream :=
          (m.keystream.apply cipher.encrypt (nextCounter m.nonce) piece).2 } :=
      ⟨h.nonce, Keystream.spent_apply_le _ _ h.spent piece, h.length⟩
    rw [if_pos hend, refill_pack mac h.nonce, ok_bind, keystreamPosition_pack,
      sub_eq (Nat.le_of_lt hlt), ok_bind, sub_eq hoffset, ok_bind, hstop,
      ok_bind, hpiece, ok_bind,
      stretch_pack mac hroom, ok_bind, hrefill hne, hcut,
      Keystream.apply_append]
    dsimp only
    rw [if_pos hmore,
      hnext.applyKeystream_pack cipher tagLength aad message mac hbuffer _ hle,
      List.append_assoc]
  · rw [if_neg hend, List.drop_of_length_le (Nat.le_of_not_lt hend),
      Keystream.apply_nil,
      List.append_nil]
    rfl
termination_by buffer.length - offset

/-- **Which streams lie in which memory.** Of a stream without a nonce
little is known, and nothing but the tag length and the size of the row
is asked; of one with a message, all places but the chaining value. -/
inductive Packs : Packed → Ccm → Prop
  /-- Before the first nonce nothing is read. -/
  | blank {cipher : BlockCipher} {tagLength : Nat} {row : Bytes}
    {aad message : Buffer UInt8}
    {position : Nat} (htag : tagLength ∈ tagLengths)
    (hrow : row.length = rowLength) :
    Packs ⟨cipher, tagLength, row, aad, message, 0, position⟩
      ⟨cipher, tagLength, none⟩
  /-- After it there is a message, with some chaining value. -/
  | carrying {cipher : BlockCipher} {tagLength : Nat} {m : Message}
    {aad message : Buffer UInt8}
    (htag : tagLength ∈ tagLengths) (h : m.Sound) (mac : Block)
    (haad : Buffer.Holds m.aad aad)
    (hmessage : Buffer.Holds m.plaintext message) :
    Packs (m.pack cipher tagLength mac aad message) ⟨cipher, tagLength, some m⟩

variable {p : Packed} {c : Ccm}

/-- The row has the size of its four blocks, with a message in it or
without. -/
theorem Packs.length_row (h : Packs p c) : p.row.length = rowLength := by
  cases h with
  | blank _ hrow => exact hrow
  | carrying => exact Block.length_row _

theorem Packs.cipher_eq (h : Packs p c) : p.cipher = c.cipher := by
  cases h <;> rfl

theorem Packs.tagLength_eq (h : Packs p c) : p.tagLength = c.tagLength := by
  cases h <;> rfl

/-- The tag length is one of the mode, from the constructor on. The
flags of the opening block are computed from it. -/
theorem Packs.tagLength_mem (h : Packs p c) : c.tagLength ∈ tagLengths := by
  cases h <;> assumption

/-- A stream that has just been made lies in a memory that has just been
laid out. -/
theorem packs_ofCipher (cipher : BlockCipher) {tagLength : Nat}
    (htag : tagLength ∈ tagLengths) :
    Packs (Packed.ofCipher cipher tagLength) (Ccm.ofCipher cipher tagLength) :=
  .blank htag (Bytes.length_zeros rowLength)

/-! ## The nonce -/

/-- **A message begun in memory**, whatever lay there before: an earlier
message with its buffers, or nothing at all. A nonce that is refused
leaves it there. -/
theorem Packs.reset (h : Packs p c) (nonce : Bytes) :
    match c.reset nonce with
    | .ok c' => ∃ p', p.reset nonce = .ok (⟨.ok (), []⟩, p') ∧ Packs p' c'
    | .error e => p.reset nonce = .ok (⟨.error e, []⟩, p) := by
  unfold Ccm.reset Packed.reset
  by_cases hn : nonce.length < minNonceLength ∨ maxNonceLength < nonce.length
  · rw [if_pos hn, if_pos hn]
    rfl
  · rw [if_neg hn, if_neg hn]
    have hnonce : Mode.ccm.TakesNonce nonce := by
      rw [not_or, Nat.not_lt, Nat.not_lt] at hn
      exact hn
    have hle : nonce.length ≤ 12 := hnonce.2
    -- Up to its counter block the message is there when the counter block is
    -- made.
    let m : Message :=
      ⟨nonce, ⟨Block.zero, Block.zero, p.keystreamPosition⟩, [], []⟩
    have hblank : wipe p.row 0 p.row.length
      = .ok (Block.row (List.replicate 4 Block.zero)) := by
      rw [wipe_whole, h.length_row, Block.row_replicate_zero]
      rfl
    have hstop : add nonceAt nonce.length = .ok (nonceAt + nonce.length) :=
      add_eq (by unfold wordLimit nonceAt macAt keystreamAt counterAt; omega)
    have hput :
        put (Block.row (List.replicate 4 Block.zero)) nonceAt
            (nonceAt + nonce.length) nonce
          = .ok (m.pack p.cipher p.tagLength Block.zero p.aad
              p.message).row := by
      have hfits : 0 + nonce.length ≤ 16 := by omega
      have hwrite :=
        put_within (List.replicate 3 Block.zero) [] Block.zero hfits
      rwa [Block.write_zero (by omega)] at hwrite
    have hone : sub (lengthWidth nonce) 1 = .ok (lengthWidth nonce - 1) :=
      sub_eq (by unfold lengthWidth; omega)
    have hcounter :
        put (m.pack p.cipher p.tagLength Block.zero p.aad p.message).row
            counterAt (counterAt + 16) (counterBlock nonce 1).toBytes
          = .ok (Message.pack (.start nonce) p.cipher p.tagLength Block.zero
              p.aad p.message).row :=
      put_block [] _ Block.zero (counterBlock nonce 1)
    have hstart : (Message.start nonce).Sound :=
      ⟨hnonce, Nat.le_refl 16, Nat.zero_le _⟩
    rw [hblank, ok_bind, hstop, ok_bind, hput, ok_bind]
    refine ⟨(Message.start nonce).pack p.cipher p.tagLength Block.zero
      p.aad.clear p.message.clear,
      ?_, ?_⟩
    · have hwidth :
        (m.pack p.cipher p.tagLength Block.zero p.aad p.message).lengthWidth
          = .ok (lengthWidth nonce) := lengthWidth_pack Block.zero hnonce
      have hformat :
        (m.pack p.cipher p.tagLength Block.zero p.aad p.message).formatBlock
          (UInt8.ofNat (lengthWidth nonce - 1)) 1
            = .ok (counterBlock nonce 1).toBytes :=
        formatBlock_pack Block.zero hnonce (lengthWidth nonce - 1) 1
      refine (bind_eq hwidth _).trans ((bind_eq hone _).trans ?_)
      exact (bind_eq hformat _).trans (bind_eq hcounter _)
    · rw [h.cipher_eq, h.tagLength_eq]
      exact .carrying h.tagLength_mem hstart Block.zero (.clear p.aad)
        (.clear p.message)

/-! ## Associated data and message -/

/-- How much associated data a stream keeps: all that there is of a
message, and none where there is no message. -/
def kept (c : Ccm) : Nat :=
  match c.message? with
  | none => 0
  | some m => m.aad.length

/-- Associated data that is taken in is kept whole, since it is chained
only when a tag is asked for. -/
theorem kept_of_authenticate {c' : Ccm} {data : Bytes}
    (hc : c.authenticate data = .ok c') :
    c'.kept = c.kept + data.length := by
  obtain ⟨cipher, tagLength, message?⟩ := c
  unfold Ccm.authenticate at hc
  cases message? with
  | none => cases hc
  | some m =>
    dsimp only at hc
    split at hc <;> cases hc
    exact List.length_append

theorem kept_of_transform {direction : Direction} {piece : Bytes}
    {out : Bytes × Ccm} (hc : c.transform direction piece = .ok out) :
    out.2.kept = c.kept := by
  obtain ⟨cipher, tagLength, message?⟩ := c
  unfold Ccm.transform at hc
  cases message? with
  | none => cases hc
  | some m =>
    dsimp only at hc
    split at hc <;> cases hc
    rfl

/-- A transform leaves as many bytes as it was given, whichever its
direction. -/
theorem length_of_transform {direction : Direction} {piece : Bytes}
    {out : Bytes × Ccm} (hc : c.transform direction piece = .ok out) :
    out.1.length = piece.length := by
  unfold Ccm.transform at hc
  split at hc
  · cases hc
  · split at hc <;> cases hc
    exact Keystream.length_apply ..

/-- A nonce that a message can have is not empty, which is how a memory
with a message is told from one without. -/
theorem Message.Sound.nonceLength_ne_zero {m : Message} (h : m.Sound) :
    ¬m.nonce.length = 0 := by
  have hge : 8 ≤ m.nonce.length := h.nonce.1
  omega

/-- **Associated data in memory** is refused, or goes behind what is
kept of it. -/
theorem Packs.authenticate_cases (h : Packs p c) (data : Bytes) :
    (∃ e, c.authenticate data = .error e
      ∧ p.authenticate data = .ok (⟨.error e, []⟩, p))
    ∨ ∃ c', c.authenticate data = .ok c' ∧ p.aad.length = c.kept
      ∧ p.authenticate data
        = (append p.aad data).map (fun aad => (⟨.ok (), []⟩, { p with aad }))
      ∧ Packs { p with aad := p.aad.append data } c' := by
  cases h with
  | blank => exact .inl ⟨_, rfl, rfl⟩
  | @carrying cipher tagLength m aad message htag hsound mac haad hmessage =>
    unfold Ccm.authenticate Packed.authenticate
    rw [nonceLength_pack, if_neg hsound.nonceLength_ne_zero]
    dsimp only
    rw [show (m.pack cipher tagLength mac aad message).message
      = message from rfl,
      hmessage.isEmpty_eq]
    by_cases hbegun : !m.plaintext.isEmpty
    · rw [if_pos hbegun, if_pos hbegun]
      exact .inl ⟨_, rfl, rfl⟩
    · have hnext : Message.Sound { m with aad := m.aad ++ data } :=
        ⟨hsound.nonce, hsound.spent, hsound.length⟩
      rw [if_neg hbegun, if_neg hbegun]
      refine .inr ⟨_, rfl, haad.length_eq, ?_,
        .carrying htag hnext mac (haad.append data) hmessage⟩
      cases append (m.pack cipher tagLength mac aad message).aad data <;> rfl

/-- **Associated data taken in in memory**, as long as it is not beyond
all measure: what must fit in a word is the size of all that is kept. -/
theorem Packs.authenticate (h : Packs p c) {data : Bytes}
    (hroom : c.kept + data.length < 2 ^ 61) :
    match c.authenticate data with
    | .ok c' => ∃ p', p.authenticate data = .ok (⟨.ok (), []⟩, p') ∧ Packs p' c'
    | .error e => p.authenticate data = .ok (⟨.error e, []⟩, p) := by
  obtain ⟨e, hc, hp⟩ | ⟨c', hc, hlength, hp, hnext⟩ := h.authenticate_cases data
  · rw [hc]
    exact hp
  · rw [hc]
    refine ⟨_, ?_, hnext⟩
    rw [hp, append_eq (by rw [hlength]; omega)]
    rfl

/-- However much associated data there is, it is taken in if the call
comes to its end at all. The only fault there can be is that of a buffer
that has become too large. -/
theorem Packs.ensures_authenticate (h : Packs p c) (data : Bytes) :
    Ensures (fun out => match c.authenticate data with
      | .ok c' => out.1 = ⟨.ok (), []⟩ ∧ Packs out.2 c'
      | .error e => out = (⟨.error e, []⟩, p)) (p.authenticate data) := by
  obtain ⟨e, hc, hp⟩ | ⟨c', hc, -, hp, hnext⟩ := h.authenticate_cases data
  · rw [hc]
    exact .of_eq hp rfl
  · rw [hc, hp]
    exact (ensures_append p.aad data).map fun aad haad => ⟨rfl, haad ▸ hnext⟩

/-- The longest message is short as buffers go, so that the buffer for
the message has no bound of its own. -/
theorem maxMessageLength_lt {nonce : Bytes} (h : Mode.ccm.TakesNonce nonce) :
    Ccm.maxMessageLength nonce < 2 ^ 61 := by
  have hge : 8 ≤ nonce.length := h.1
  have hwidth : 8 * lengthWidth nonce ≤ 56 := by unfold lengthWidth; omega
  have hpower : 2 ^ (8 * lengthWidth nonce) ≤ 2 ^ 56 :=
    Nat.pow_le_pow_right (by decide) hwidth
  unfold Ccm.maxMessageLength
  rw [Nat.one_shiftLeft]
  omega

section

variable {cipher : BlockCipher} {tagLength : Nat} {aad message : Buffer UInt8}
  {m : Message}
  (mac : Block)

/-- **The length of the longest message, computed in memory.** No
product and no power in it leaves the word, for a nonce that the mode
takes. -/
theorem maxMessageLength_pack (h : Mode.ccm.TakesNonce m.nonce) :
    (m.pack cipher tagLength mac aad message).maxMessageLength
      = .ok (Ccm.maxMessageLength m.nonce) := by
  have hge : 8 ≤ m.nonce.length := h.1
  have hwidth : lengthWidth m.nonce ≤ 7 := by unfold lengthWidth; omega
  have hbits : mul 8 (lengthWidth m.nonce) = .ok (8 * lengthWidth m.nonce) :=
    mul_eq (by unfold wordLimit; omega)
  have hpower : powerOfTwo (8 * lengthWidth m.nonce)
    = .ok (1 <<< (8 * lengthWidth m.nonce)) :=
    if_pos (by unfold wordBits; omega)
  have hpos : 1 ≤ 1 <<< (8 * lengthWidth m.nonce) := by
    rw [Nat.one_shiftLeft]
    exact Nat.one_le_two_pow
  unfold Packed.maxMessageLength
  rw [lengthWidth_pack mac h, ok_bind, if_neg (by omega), hbits, ok_bind,
    hpower, ok_bind,
    sub_eq hpos]
  rfl

/-- Whether a piece has room is decided in memory as by the stream, with
no sum that could be more than a word holds. -/
theorem hasRoom_pack (h : Mode.ccm.TakesNonce m.nonce)
    (hmessage : Buffer.Holds m.plaintext message) (n : Nat) :
    (m.pack cipher tagLength mac aad message).hasRoom n
      = .ok (!decide
          (m.plaintext.length + n > Ccm.maxMessageLength m.nonce)) := by
  have hlimit : Ccm.maxMessageLength m.nonce < wordLimit :=
    Nat.lt_trans (maxMessageLength_lt h) (by decide)
  unfold hasRoom
  rw [maxMessageLength_pack mac h, ok_bind, sumWithin?_eq hlimit,
    show (m.pack cipher tagLength mac aad message).message.length
      = m.plaintext.length from
      hmessage.length_eq]
  split
  · next hlong => rw [decide_eq_true hlong]; rfl
  · next hshort => rw [decide_eq_false hshort]; rfl

end

/-- **A buffer transformed in memory**, or refused and left as it was,
as by the stream. The plaintext side is appended to what is kept, before
or after it has been transformed. -/
theorem Packs.transform (h : Packs p c) (direction : Direction)
    (buffer : Bytes) :
    match c.transform direction buffer with
    | .ok (result, c') =>
      ∃ p', p.transform direction buffer = .ok (⟨.ok (), result⟩, p')
        ∧ Packs p' c'
    | .error e =>
      p.transform direction buffer = .ok (⟨.error e, buffer⟩, p) := by
  cases h with
  | blank => rfl
  | @carrying cipher tagLength m aad message htag hsound mac haad hmessage =>
    unfold Ccm.transform Packed.transform
    rw [nonceLength_pack, if_neg hsound.nonceLength_ne_zero,
      hasRoom_pack mac hsound.nonce hmessage,
      ok_bind]
    dsimp only
    by_cases hlong : m.plaintext.length + buffer.length
      > Ccm.maxMessageLength m.nonce
    · rw [if_pos hlong, decide_eq_true hlong]
      rfl
    · rw [if_neg hlong, decide_eq_false hlong]
      have hlimit := maxMessageLength_lt hsound.nonce
      have hbuffer : buffer.length < 2 ^ 61 := by omega
      have happend {elements : Bytes}
        (hlength : elements.length = buffer.length) :
          append message elements = .ok (message.append elements) :=
        append_eq (by rw [hmessage.length_eq]; omega)
      have hkeystream (message : Buffer UInt8) :=
        hsound.applyKeystream_pack cipher tagLength aad message mac hbuffer []
          (Nat.zero_le _)
      have hnext {elements : Bytes}
        (hlength : elements.length = buffer.length) :
          Message.Sound { m with
            keystream :=
              (m.keystream.apply cipher.encrypt (nextCounter m.nonce) buffer).2
            plaintext := m.plaintext ++ elements } :=
        ⟨hsound.nonce, Keystream.spent_apply_le _ _ hsound.spent buffer, by
          rw [List.length_append, hlength]
          exact Nat.le_of_not_lt hlong⟩
      cases direction with
      | encrypt =>
        refine ⟨_, ?_,
          .carrying htag (hnext rfl) mac haad (hmessage.append buffer)⟩
        exact (bind_eq (happend rfl) _).trans
          (bind_eq (hkeystream (message.append buffer)) _)
      | decrypt =>
        have hresult :=
          Keystream.length_apply cipher.encrypt (nextCounter m.nonce)
            m.keystream buffer
        refine ⟨_, ?_,
          .carrying htag (hnext hresult) mac haad (hmessage.append _)⟩
        exact (bind_eq (hkeystream message) _).trans
          (bind_eq (happend hresult) _)

/-! ## The tag -/

/-- **The flags of the opening block, put together bit by bit**: the
three parts do not overlap, so that the bits add up to the number. -/
theorem flags_eq {tagLength : Nat} (htag : tagLength ∈ tagLengths)
    {nonce : Bytes} (hnonce : Mode.ccm.TakesNonce nonce) (aad : Bytes) :
    (if aad.isEmpty then (0 : UInt8) else 0x40)
      ||| UInt8.ofNat ((tagLength - 2) / 2) <<< 3
        ||| UInt8.ofNat (lengthWidth nonce - 1)
      = UInt8.ofNat (openingFlags tagLength nonce aad) := by
  have hall : ∀ t ∈ tagLengths, ∀ w < 15, ∀ empty : Bool, 1 ≤ w → w ≤ 8 →
      (if empty then (0 : UInt8) else 0x40) ||| UInt8.ofNat ((t - 2) / 2) <<< 3
          ||| UInt8.ofNat (w - 1)
        = UInt8.ofNat
          ((if empty then 0 else 64) + 8 * ((t - 2) / 2) + (w - 1)) := by decide
  have hge : 8 ≤ nonce.length := hnonce.1
  have hle : nonce.length ≤ 12 := hnonce.2
  exact hall tagLength htag (lengthWidth nonce) (by unfold lengthWidth; omega)
    aad.isEmpty
    (by unfold lengthWidth; omega) (by unfold lengthWidth; omega)

/-- **The length that precedes associated data, written in memory**, in
the first bytes of a small array: two, six or ten of them. -/
theorem exists_encodeAadLength (n : Nat) :
    ∃ header length, encodeAadLength n = .ok (header, length)
      ∧ slice header 0 length = .ok (aadHeader n) := by
  have hread {before : Bytes} (after : Bytes) {length : Nat}
    (h : before.length = length) :
      slice (before ++ after) 0 length = .ok before := by
    show slice ([] ++ before ++ after) 0 length = .ok before
    exact slice_append rfl (by omega)
  have hlen (w : Nat) : (Bytes.bigEndian w n).length = w :=
    Bytes.length_bigEndian w n
  have hfirst {mark : Bytes} (h : mark.length = 2) :
      put (Bytes.zeros 10) 0 2 mark = .ok (mark ++ Bytes.zeros 8) := by
    show put ([] ++ Bytes.zeros 2 ++ Bytes.zeros 8) 0 2 mark
      = .ok ([] ++ mark ++ Bytes.zeros 8)
    exact put_append rfl rfl h
  unfold encodeAadLength aadHeader
  by_cases hshort : n < 0xFF00
  · rw [if_pos hshort, if_pos hshort]
    exact ⟨_, 2, bind_eq (hfirst (hlen 2)) _, hread (Bytes.zeros 8) (hlen 2)⟩
  · rw [if_neg hshort, if_neg hshort]
    by_cases hmiddle : n ≤ 0xFFFFFFFF
    · have hput :
          put ([0xFF, 0xFE] ++ Bytes.zeros 4 ++ Bytes.zeros 4) 2 6
              (Bytes.bigEndian 4 n)
            = .ok ([0xFF, 0xFE] ++ Bytes.bigEndian 4 n ++ Bytes.zeros 4) :=
        put_append rfl rfl (hlen 4)
      rw [if_pos hmiddle, if_pos (Nat.lt_succ_of_le hmiddle)]
      refine ⟨_, 6, (bind_eq (hfirst rfl) _).trans (bind_eq hput _), ?_⟩
      exact hread (Bytes.zeros 4) (by rw [List.length_append, hlen]; rfl)
    · have hput :
          put ([0xFF, 0xFF] ++ Bytes.zeros 8 ++ []) 2 10 (Bytes.bigEndian 8 n)
            = .ok ([0xFF, 0xFF] ++ Bytes.bigEndian 8 n ++ []) :=
        put_append rfl rfl (hlen 8)
      rw [if_neg hmiddle, if_neg (fun h => hmiddle (Nat.le_of_lt_succ h))]
      refine ⟨_, 10, (bind_eq (hfirst rfl) _).trans (bind_eq hput _), ?_⟩
      exact hread [] (by rw [List.length_append, hlen]; rfl)

section

variable (cipher : BlockCipher) (tagLength : Nat) {aad message : Buffer UInt8}
  {m : Message}

/-- The associated data is taken into the chain, behind its length, and
closed by a boundary; if there is none, nothing is taken in. -/
theorem macAad_pack (message : Buffer UInt8) (mac : Block)
    (haad : Buffer.Holds m.aad aad) {chain : CbcMac}
    (hchain : chain.filled < 16) :
    ∃ chain' : CbcMac,
      (m.pack cipher tagLength mac aad message).macAad chain.pack
        = .ok chain'.pack
        ∧ chain'.filled < 16
        ∧ chain' = if m.aad.isEmpty then chain
            else ((chain.absorb cipher.encrypt (aadHeader m.aad.length)).absorb
                cipher.encrypt
              m.aad).pad cipher.encrypt := by
  unfold macAad
  rw [show (m.pack cipher tagLength mac aad message).aad = aad from rfl,
    haad.isEmpty_eq,
    haad.length_eq, haad.toList_eq]
  by_cases hempty : m.aad.isEmpty
  · rw [if_pos hempty, if_pos hempty]
    exact ⟨chain, rfl, hchain, rfl⟩
  · obtain ⟨header, length, hencode, hread⟩ :=
      exists_encodeAadLength m.aad.length
    obtain ⟨hheader, hfilled⟩ := CbcMac.pack_update cipher hchain
      (aadHeader m.aad.length)
    obtain ⟨hdata, hfilled'⟩ := CbcMac.pack_update cipher hfilled m.aad
    rw [if_neg hempty, if_neg hempty]
    refine ⟨_, ?_, CbcMac.filled_pad_lt cipher hfilled', rfl⟩
    refine (bind_eq hencode _).trans ((bind_eq hread _).trans ?_)
    exact (bind_eq hheader _).trans
      ((bind_eq hdata _).trans (CbcMac.pack_pad _))

/-- **The chain over the message, computed in memory**: opening block,
associated data and plaintext, begun in whatever range the last tag has
left. -/
theorem mac_pack (mac : Block) (haad : Buffer.Holds m.aad aad)
    (hmessage : Buffer.Holds m.plaintext message) :
    ∃ chain : CbcMac,
      (m.pack cipher tagLength mac aad message).mac
          (openingBlock tagLength m.nonce m.aad m.plaintext.length).toBytes
            mac.toBytes
        = .ok chain.pack
      ∧ chain.chain = m.mac cipher.encrypt tagLength := by
  have hstart : CbcMac.Packed.start mac.toBytes = CbcMac.start.pack := by
    rw [← CbcMac.restart_eq ⟨mac, 0⟩]
    exact CbcMac.start_pack ⟨mac, 0⟩
  have hempty : CbcMac.start.filled < 16 := Nat.zero_lt_succ 15
  obtain ⟨hopening, hfilled⟩ := CbcMac.pack_update cipher hempty
    (openingBlock tagLength m.nonce m.aad m.plaintext.length).toBytes
  obtain ⟨chain, haadStep, hfilled', hchain⟩ :=
    macAad_pack cipher tagLength message mac haad hfilled
  obtain ⟨hdata, -⟩ := CbcMac.pack_update cipher hfilled' m.plaintext
  refine ⟨(chain.absorb cipher.encrypt m.plaintext).pad cipher.encrypt, ?_, ?_⟩
  · unfold Packed.mac
    rw [hstart,
      show (m.pack cipher tagLength mac aad message).message = message from rfl,
      hmessage.toList_eq]
    refine (bind_eq hopening _).trans ((bind_eq haadStep _).trans ?_)
    exact (bind_eq hdata _).trans (CbcMac.pack_pad _)
  · rw [hchain]
    rfl

/-- **A tag of the right length, written in memory.** The chain and the
mask are added in the range of the chain, which is all that is different
in memory afterwards. -/
theorem tag_pack (mac : Block) (h : m.Sound) (htag : tagLength ∈ tagLengths)
    (haad : Buffer.Holds m.aad aad)
    (hmessage : Buffer.Holds m.plaintext message) {buffer : Bytes}
    (hbuffer : buffer.length = tagLength) :
    ∃ mac', (m.pack cipher tagLength mac aad message).tag buffer
      = .ok (⟨.ok (), ((m.mac cipher.encrypt tagLength).xor
            (cipher.encrypt (counterBlock m.nonce 0))).toBytes.take
              buffer.length⟩,
          m.pack cipher tagLength mac' aad message) := by
  obtain ⟨chain, hmac, hchain⟩ := mac_pack cipher tagLength mac haad hmessage
  have hbounds : ∀ t ∈ tagLengths, 2 ≤ t ∧ t ≤ 16 := by decide
  have hle : m.nonce.length ≤ 12 := h.nonce.2
  have htwo : sub tagLength 2 = .ok (tagLength - 2) :=
    sub_eq (hbounds tagLength htag).1
  have hone : sub (lengthWidth m.nonce) 1 = .ok (lengthWidth m.nonce - 1) :=
    sub_eq (by unfold lengthWidth; omega)
  have hformat (flags number : Nat) :
      (m.pack cipher tagLength mac aad message).formatBlock (UInt8.ofNat flags)
        number
          = .ok (nonceBlock flags m.nonce number).toBytes :=
            formatBlock_pack mac h.nonce flags number
  have hread : slice (m.pack cipher tagLength mac aad message).row macAt nonceAt
      = .ok mac.toBytes :=
        slice_block [m.keystream.counter, m.keystream.block] _ mac
  have hwrite :
    put (m.pack cipher tagLength mac aad message).row macAt nonceAt
    chain.pack.state
      = .ok (m.pack cipher tagLength chain.chain aad message).row :=
    put_block [m.keystream.counter, m.keystream.block] _ mac chain.chain
  have hover (b : Block) : Bytes.overwrite b.toBytes buffer
    = b.toBytes.take buffer.length := by
    have hcovered : buffer.length ≤ b.toBytes.length := by
      rw [Block.length_toBytes, hbuffer]
      exact (hbounds tagLength htag).2
    unfold Bytes.overwrite
    rw [List.drop_of_length_le hcovered, List.append_nil]
  refine ⟨chain.chain, ?_⟩
  unfold Packed.tag
  rw [nonceLength_pack, if_neg h.nonceLength_ne_zero,
    if_neg (show ¬buffer.length
        ≠ (m.pack cipher tagLength mac aad message).tagLength from
      not_not_intro hbuffer),
    lengthWidth_pack mac h.nonce, ok_bind,
    show (m.pack cipher tagLength mac aad message).aad = aad from rfl,
      haad.isEmpty_eq]
  dsimp only
  rw [show (m.pack cipher tagLength mac aad message).tagLength
    = tagLength from rfl, htwo, ok_bind,
    hone, ok_bind, flags_eq htag h.nonce,
    show (m.pack cipher tagLength mac aad message).message.length
      = m.plaintext.length from
      hmessage.length_eq,
    hformat, ok_bind, hformat, ok_bind,
    show (m.pack cipher tagLength mac aad message).cipher = cipher from rfl,
      encrypt_toBytes,
    ok_bind, hread, ok_bind]
  refine (bind_eq hmac _).trans ((bind_eq hwrite _).trans ?_)
  rw [← hchain, ← hover, Block.toBytes_xor]
  rfl

end

/-- **A tag written in memory**, or refused for its length. It leaves
its chaining value there, in which the same stream lies. -/
theorem Packs.tag (h : Packs p c) (buffer : Bytes) :
    match c.tag buffer.length with
    | .ok tag => ∃ p', p.tag buffer = .ok (⟨.ok (), tag⟩, p') ∧ Packs p' c
    | .error e => p.tag buffer = .ok (⟨.error e, buffer⟩, p) := by
  cases h with
  | blank => rfl
  | @carrying cipher tagLength m aad message htag hsound mac haad hmessage =>
    unfold Ccm.tag
    dsimp only
    by_cases hlength : buffer.length ≠ tagLength
    · rw [if_pos hlength]
      unfold Packed.tag
      rw [nonceLength_pack, if_neg hsound.nonceLength_ne_zero,
        if_pos (show buffer.length
            ≠ (m.pack cipher tagLength mac aad message).tagLength from
          hlength)]
      rfl
    · rw [if_neg hlength]
      obtain ⟨mac', hresult⟩ :=
        tag_pack cipher tagLength mac hsound htag haad hmessage
          (not_not.mp hlength)
      exact ⟨_, hresult, .carrying htag hsound mac' haad hmessage⟩

end Aead.Ccm

end Strongbox
