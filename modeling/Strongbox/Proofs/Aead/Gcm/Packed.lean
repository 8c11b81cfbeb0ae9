import Strongbox.Aead.Gcm.Packed
import Strongbox.Proofs.Aead.Gcm
import Strongbox.Proofs.Increment
import Strongbox.Proofs.Stretches

/-!
# Galois/counter mode in memory

`Gcm.pack` lays a stream out in memory, and every operation on the
memory is found to be the operation on the stream: it ends without a
fault, and what it leaves behind is the stream after the operation, laid
out again. No other memory ever comes up, so that the five words in it
need no invariants of their own.

What has to be known of the stream is little (`Gcm.Sound`): that the
pending block holds zeros behind what has arrived, that no more of the
keystream block is spent than there is, and that neither length is
beyond its limit.

* `increment_toBytes` and the lemmas on the start block compare bytes
  with blocks: a number read out and written back, a length block filled
  from both ends.
* `pack_absorb` and `pack_crypt` are the two loops. Each is by induction
  on what is left of its slice, in the same stretches as the loop takes:
  up to the end of a block, of the hash in the one case and of the
  keystream in the other.
* `pass` is what a loop over a message does to the stream, and
  `pass_append` lets it be done in parts.
* `Sound.pack_transform` and the others of its kind are the operations,
  with their refusals, as equations between the two sides.
-/

namespace Strongbox

/-! ## Hashes that can come up -/

/-- **A hash that some blocks and bytes have led to.** Which ones does
not matter here; that there are some bounds the pending block and fixes
what is behind it. -/
def Ghash.Sound (g : Ghash) : Prop :=
  ∃ done bytes, Ghash.Holds g.key done bytes g

/-- A piece that is one block is taken in as this block, and needs no
padding. -/
theorem Ghash.Accumulator.updatePadded_toBytes (a : Accumulator) (b : Block) :
    a.updatePadded b.toBytes = { a with sum := Ghash.step a.key a.sum b } := by
  have hne : b.toBytes ≠ [] :=
    fun h => absurd b.length_toBytes (by rw [h]; decide)
  unfold updatePadded
  rw [Block.split_of_length_le hne (Nat.le_of_eq b.length_toBytes),
    Block.ofBytes_toBytes]
  rfl

namespace Ghash.Sound

variable {g : Ghash}

/-- A hash under a key that has taken in nothing is one that can come
up, with no blocks and no bytes. -/
theorem start (key : Block) : (Ghash.start key).Sound := ⟨[], [], .start key⟩

/-- Taking in bytes leads from one hash that can come up to another: the
bytes go behind those that have led to it. -/
theorem absorb (h : g.Sound) (bytes : Bytes) : (g.absorb bytes).Sound := by
  obtain ⟨done, before, h⟩ := h
  exact ⟨done, before ++ bytes, (g.key_absorb bytes).symm ▸ h.absorb bytes⟩

/-- Completing the pending block leads to a hash that can come up as
well, now with no byte pending. -/
theorem flush (h : g.Sound) : g.flush.Sound := by
  obtain ⟨done, before, h⟩ := h
  exact ⟨_, [], g.key_flush.symm ▸ h.flush⟩

/-- The pending block has room: a block that is full is taken in at
once. -/
theorem filled_lt (h : g.Sound) : g.filled < 16 := by
  obtain ⟨done, before, h⟩ := h
  rw [h.filled]
  exact Nat.mod_lt _ (by decide)

/-- **Behind what has arrived there are zeros**: the block is what has
arrived, filled up. -/
theorem pending_eq (h : g.Sound) :
    g.pending = Block.ofBytes (g.pending.toBytes.take g.filled) := by
  obtain ⟨done, before, h⟩ := h
  have hrest : (Block.rest before).length = g.filled := by
    rw [Block.length_rest, h.filled]
  have hle : (Block.rest before).length ≤ 16 :=
    hrest ▸ Nat.le_of_lt (filled_lt ⟨done, before, h⟩)
  have htake : g.pending.toBytes.take g.filled = Block.rest before := by
    rw [h.pending, ← hrest, Block.take_toBytes_ofBytes hle]
  rw [htake]
  exact h.pending

/-- The zeros behind what has arrived, as a memory shows them. They are
what completes the block, so that nothing has to be written for it. -/
theorem drop_pending (h : g.Sound) :
    g.pending.toBytes.drop g.filled = Bytes.zeros (16 - g.filled) := by
  have hlength : (g.pending.toBytes.take g.filled).length = g.filled :=
    List.length_take_of_le
      (by rw [Block.length_toBytes]; exact Nat.le_of_lt h.filled_lt)
  have hdrop := Block.drop_toBytes_ofBytes
    (hlength.trans_le (Nat.le_of_lt h.filled_lt) :
        (g.pending.toBytes.take g.filled).length ≤ 16)
  rwa [← h.pending_eq, hlength] at hdrop

end Ghash.Sound

namespace Aead.Gcm

open Checked Gcm.Packed

/-- **A stream that can come up.** Every stream made of a cipher is one,
and each operation leads from one to another. -/
structure Sound (g : Gcm) : Prop where
  /-- The hash is one that can come up. -/
  hash : g.hash.Sound
  /-- No more of the keystream block is spent than there is. -/
  spent : g.keystream.spent ≤ 16
  /-- The associated data is within its limit. -/
  aadLength : g.aadLength ≤ maxAadLength
  /-- The message is within its limit. -/
  messageLength : g.messageLength ≤ maxMessageLength

/-- **A stream laid out in memory.** Five blocks stand in a row;
lengths, position and flag are words of their own, and the hash key is
there twice. -/
def pack (g : Gcm) : Packed where
  cipher := g.cipher
  hash := ⟨g.hash.key, g.hash.sum⟩
  row := Block.row
    [g.origin, g.keystream.counter, g.keystream.block, g.hash.pending,
      g.hash.key]
  aadLength := g.aadLength
  messageLength := g.messageLength
  pendingLength := g.hash.filled
  keystreamPosition := g.keystream.spent
  inMessage := g.inMessage

theorem pendingLength_pack (g : Gcm) : g.pack.pendingLength = g.hash.filled :=
  rfl

theorem keystreamPosition_pack (g : Gcm) :
    g.pack.keystreamPosition = g.keystream.spent := rfl

/-! ## The nonce -/

/-- A fresh hash is made of the key that is kept in the row, which is
why the row keeps one. -/
theorem pack_freshHash (g : Gcm) :
    g.pack.freshHash = .ok ⟨g.hash.key, Block.zero⟩ := by
  have hkey : slice g.pack.row hashKeyAt (hashKeyAt + 16)
    = .ok g.hash.key.toBytes :=
    slice_block
      [g.origin, g.keystream.counter, g.keystream.block, g.hash.pending] []
      g.hash.key
  unfold freshHash Ghash.Accumulator.start
  rw [hkey, ok_bind, block_toBytes]
  rfl

/-- **The number of a counter block is read out and written back.** What
comes of it is the successor of the block, and the twelve bytes in front
of the number stay. -/
theorem increment_toBytes (b : Block) :
    increment b.toBytes = .ok (nextCounter b).toBytes := by
  have hread : slice b.toBytes 12 b.toBytes.length = .ok (b.toBytes.drop 12) :=
    slice_length (by rw [Block.length_toBytes]; decide)
  have hdropped : (b.toBytes.drop 12).length = (Bytes.zeros 4).length := by
    rw [List.length_drop, Block.length_toBytes, Bytes.length_zeros]
  have hword : put (Bytes.zeros 4) 0 4 (b.toBytes.drop 12)
      = .ok (b.toBytes.drop 12) :=
    put_whole hdropped
  have hwrite (n : Nat) :
    put b.toBytes 12 b.toBytes.length (Bytes.bigEndian 4 n)
      = .ok (b.toBytes.take 12 ++ Bytes.bigEndian 4 n) :=
    put_length (by rw [Bytes.length_bigEndian, Block.length_toBytes])
  have hmod (n : Nat) : Bytes.bigEndian 4 (n % 0x100000000)
    = Bytes.bigEndian 4 n :=
    congrArg List.reverse (Bytes.littleEndian_mod 4 n)
  unfold increment
  rw [hread, ok_bind, hword, ok_bind, hwrite, hmod, nextCounter,
    Block.toBytes_increment b (by decide)]
  rfl

/-- The start block written anew, over the one that was there; the four
blocks behind it are not touched. -/
theorem put_origin (g : Gcm) (b : Block) :
    put g.pack.row originAt (originAt + 16) b.toBytes
      = .ok (pack { g with origin := b }).row :=
  put_block [] _ g.origin b

/-- Twelve bytes, and a one at the end of the block: the bytes between
them are the zeros that the block was made of. -/
theorem write_nonce {nonce : Bytes} (h : nonce.length = nonceLength) :
    (Block.zero.write 0 nonce).set 15 1
      = Block.ofBytes (nonce ++ Bytes.bigEndian 4 1) := by
  have hlen : nonce.length = 12 := h
  have hone : Bytes.bigEndian 4 1 = [0, 0, 0, 1] := rfl
  ext i hi
  rw [Vector.getElem_set, Block.getElem_write (by omega) hi,
    Block.getElem_ofBytes, hone,
    List.getD_eq_getElem?_getD, List.getD_eq_getElem?_getD]
  by_cases hnonce : i < 12
  · rw [if_neg (by omega), if_pos (by omega),
      List.getElem?_append_left (by omega), Nat.sub_zero]
  · rw [List.getElem?_append_right (by omega), hlen,
      if_neg (by omega : ¬(0 ≤ i ∧ i < 0 + 12)),
      Block.getElem_zero]
    obtain rfl | rfl | rfl | rfl : i = 12 ∨ i = 13 ∨ i = 14 ∨ i = 15 := by omega
    all_goals rfl

/-- The first half of the block that closes the hash, the number of bits
in eight bytes. -/
theorem put_firstLength (first : Nat) :
    put (Bytes.zeros 16) 0 8 (Bytes.bigEndian 8 (first * 8))
      = .ok (Bytes.bigEndian 8 (first * 8) ++ Bytes.zeros 8) := by
  show put ([] ++ Bytes.zeros 8 ++ Bytes.zeros 8) 0 8 _
    = .ok ([] ++ _ ++ Bytes.zeros 8)
  exact put_append rfl rfl (Bytes.length_bigEndian 8 _)

/-- The second half of it, with which the block is the one that the
stream closes its hash with. -/
theorem put_secondLength (first second : Nat) :
    put (Bytes.bigEndian 8 (first * 8) ++ Bytes.zeros 8) 8 16
      (Bytes.bigEndian 8 (second * 8))
        = .ok (lengthBlock first second).toBytes := by
  have hlen (n : Nat) : (Bytes.bigEndian 8 n).length = 8 :=
    Bytes.length_bigEndian 8 n
  have hput : put (Bytes.bigEndian 8 (first * 8) ++ Bytes.zeros 8 ++ []) 8 16
      (Bytes.bigEndian 8 (second * 8))
        = .ok (Bytes.bigEndian 8 (first * 8) ++ Bytes.bigEndian 8 (second * 8)
            ++ []) :=
    put_append (hlen _) rfl (hlen _)
  rw [List.append_nil, List.append_nil] at hput
  rw [hput, lengthBlock, Nat.mul_comm first, Nat.mul_comm second,
    Block.toBytes_ofBytes_of_length (by rw [List.length_append, hlen, hlen])]

/-- **The start block of a nonce**, of either kind: copied with a one
behind it, or hashed with its length. Only the latter multiplies a
length. -/
theorem pack_deriveOrigin (g : Gcm) {nonce : Bytes}
    (h : nonce.length < 2 ^ 61) :
    g.pack.deriveOrigin nonce
      = .ok (pack { g with origin := startBlock g.hash.key nonce }) := by
  unfold deriveOrigin startBlock
  by_cases hn : nonce.length = nonceLength
  · have hwipe : wipe g.pack.row originAt (originAt + 16)
        = .ok (pack { g with origin := Block.zero }).row :=
          wipe_row [] [g.origin] _
    have hnonce :
        put (pack { g with origin := Block.zero }).row originAt
            (originAt + nonceLength) nonce
          = .ok (pack { g with origin := Block.zero.write 0 nonce }).row := by
      rw [← hn]
      exact put_within [] _ Block.zero (i := 0) (by rw [hn]; decide)
    have hone :
        setByte (pack { g with origin := Block.zero.write 0 nonce }).row
            (originAt + 15) 1
          = .ok (pack
              { g with origin := (Block.zero.write 0 nonce).set 15 1 }).row :=
      setByte_row [] _ (by decide) 1
    rw [if_pos hn, if_pos hn, hwipe, ok_bind, hnonce, ok_bind, hone, ok_bind,
      write_nonce hn]
    rfl
  · have hbits : mul nonce.length 8 = .ok (nonce.length * 8) :=
      mul_eq (by unfold wordLimit; omega)
    have hdigest :
        ((Ghash.Accumulator.updatePadded ⟨g.hash.key, Block.zero⟩
            nonce).updatePadded
              (lengthBlock 0 nonce.length).toBytes).finalize
          = Block.toBytes
            (((Ghash.start g.hash.key).absorb nonce).digest
              (lengthBlock 0 nonce.length)) := by
      rw [((Ghash.Holds.start g.hash.key).absorb nonce).digest,
        Ghash.ofBlocks_push, Ghash.Accumulator.updatePadded_toBytes]
      rfl
    rw [if_neg hn, if_neg hn, pack_freshHash, ok_bind, hbits, ok_bind,
      show Bytes.zeros 16 = Bytes.bigEndian 8 (0 * 8) ++ Bytes.zeros 8 from rfl,
      put_secondLength, ok_bind, hdigest]
    dsimp only
    rw [put_origin]
    rfl

/-! ## The keystream -/

/-- **The next keystream block** is made and written beside its counter
block. -/
theorem pack_nextKeystreamBlock (g : Gcm) :
    g.pack.nextKeystreamBlock
      = .ok (pack { g with
          keystream := ⟨nextCounter g.keystream.counter,
            g.cipher.encrypt g.keystream.counter, 0⟩ }) := by
  have hread : slice g.pack.row counterAt pendingAt
      = .ok (g.keystream.counter.toBytes ++ g.keystream.block.toBytes) := by
    rw [← Block.row_pair]
    exact slice_row [g.origin] [g.keystream.counter, g.keystream.block]
      [g.hash.pending, g.hash.key]
  have hcopy : put g.keystream.block.toBytes 0 g.keystream.block.toBytes.length
      g.keystream.counter.toBytes = .ok g.keystream.counter.toBytes :=
    put_whole (by rw [Block.length_toBytes, Block.length_toBytes])
  have hwrite (counter block : Block) :
      put g.pack.row counterAt pendingAt (counter.toBytes ++ block.toBytes)
        = .ok (pack { g with keystream := ⟨counter, block, 0⟩ }).row := by
    rw [← Block.row_pair]
    exact put_row [g.origin] [g.keystream.counter, g.keystream.block]
      [g.hash.pending, g.hash.key] rfl
  unfold nextKeystreamBlock
  rw [hread, ok_bind, splitAt_append g.keystream.counter.length_toBytes,
    ok_bind]
  dsimp only
  rw [hcopy, ok_bind, show g.pack.cipher = g.cipher from rfl, encrypt_toBytes,
    ok_bind,
    increment_toBytes, ok_bind, hwrite]
  rfl

/-- **A block to hand out from**: a new one where the last has been
handed out, and else the one at hand. -/
theorem pack_refill (g : Gcm) :
    (if g.pack.keystreamPosition = 16 then g.pack.nextKeystreamBlock
      else pure g.pack)
      = .ok (pack { g with
          keystream :=
            g.keystream.refill g.cipher.encrypt nextCounter }) := by
  unfold Keystream.refill
  rw [keystreamPosition_pack]
  by_cases h : g.keystream.spent = 16
  · rw [if_pos h, if_pos h, pack_nextKeystreamBlock]
  · rw [if_neg h, if_neg h]
    rfl

/-! ## The hash -/

/-- **What is pending is added in.** It may be a whole block, as it is
just after one has been filled up. -/
theorem pack_flushPending (g : Gcm) (hle : g.hash.filled ≤ 16)
    (hpending : g.hash.pending
        = Block.ofBytes (g.hash.pending.toBytes.take g.hash.filled)) :
    g.pack.flushPending = .ok (pack { g with hash := g.hash.flush }) := by
  unfold flushPending
  rw [pendingLength_pack]
  by_cases h : g.hash.filled = 0
  · rw [if_pos h, Ghash.flush, if_pos h]
    rfl
  · have hblock : slice g.pack.row pendingAt (pendingAt + 16)
      = .ok g.hash.pending.toBytes :=
      slice_block [g.origin, g.keystream.counter, g.keystream.block]
        _ g.hash.pending
    have harrived : slice g.hash.pending.toBytes 0 g.hash.filled
        = .ok (g.hash.pending.toBytes.take g.hash.filled) :=
      slice_zero (by rw [Block.length_toBytes]; exact hle)
    have hwipe : wipe g.pack.row pendingAt (pendingAt + 16)
        = .ok (pack
            { g with hash := { g.hash with pending := Block.zero } }).row :=
      wipe_row [g.origin, g.keystream.counter, g.keystream.block]
        [g.hash.pending] [g.hash.key]
    rw [if_neg h, hblock, ok_bind, harrived, ok_bind, hwipe,
      Ghash.flush_eq_foldl h hle hpending]
    rfl

/-- A pending block that has been written into is added in when it is
full. -/
theorem pack_fill (g : Gcm) (h : g.hash.Sound) {piece : Bytes}
    (hroom : g.hash.filled + piece.length ≤ 16) :
    (if (pack { g with hash := g.hash.fill piece }).pendingLength = 16
      then (pack { g with hash := g.hash.fill piece }).flushPending
      else pure (pack { g with hash := g.hash.fill piece }))
        = .ok (pack { g with hash := g.hash.absorb piece }) := by
  rw [Ghash.absorb_stretch h.filled_lt hroom, pendingLength_pack,
    show (g.hash.fill piece).filled = g.hash.filled + piece.length from rfl]
  by_cases hfull : g.hash.filled + piece.length = 16
  · have hpending : (g.hash.fill piece).pending = Block.ofBytes
        ((g.hash.fill piece).pending.toBytes.take
            (g.hash.fill piece).filled) := by
      rw [show (g.hash.fill piece).filled = 16 from hfull,
        List.take_of_length_le (Nat.le_of_eq (Block.length_toBytes _)),
        Block.ofBytes_toBytes]
    rw [if_pos hfull, if_pos hfull]
    exact pack_flushPending _ hroom hpending
  · rw [if_neg hfull, if_neg hfull]
    rfl

/-- **Bytes are taken in**, as many at once as the pending block has
room for. The recursion is the loop's, on what is left of the slice. -/
theorem pack_absorb (g : Gcm) (h : g.hash.Sound) (data : Bytes) :
    g.pack.absorb data = .ok (pack { g with hash := g.hash.absorb data }) := by
  rw [absorb]
  by_cases hnil : data = []
  · subst hnil
    rfl
  have hpos : 0 < data.length := List.length_pos_iff.mpr hnil
  have hfilled := h.filled_lt
  have hroom : sub 16 g.hash.filled = .ok (16 - g.hash.filled) :=
    sub_eq (Nat.le_of_lt hfilled)
  rw [if_neg (by simpa using hnil), pendingLength_pack, hroom, ok_bind]
  generalize htaken : min (16 - g.hash.filled) data.length = taken
  have hpiece : (data.take taken).length = taken :=
    List.length_take_of_le (by omega)
  have hfits : g.hash.filled + (data.take taken).length ≤ 16 := by omega
  have hstart : add pendingAt g.hash.filled = .ok (pendingAt + g.hash.filled) :=
    add_eq (by unfold wordLimit pendingAt keystreamAt counterAt originAt; omega)
  have hstop : add (pendingAt + g.hash.filled) taken
    = .ok (pendingAt + g.hash.filled + taken) :=
    add_eq (by unfold wordLimit pendingAt keystreamAt counterAt originAt; omega)
  have hread : slice data 0 taken = .ok (data.take taken) :=
    slice_zero (by omega)
  have hput :
      put g.pack.row (pendingAt + g.hash.filled)
          (pendingAt + g.hash.filled + taken) (data.take taken)
        = .ok (pack { g with hash := g.hash.fill (data.take taken) }).row := by
    have hput :=
      put_within [g.origin, g.keystream.counter, g.keystream.block]
        [g.hash.key] g.hash.pending hfits
    rwa [hpiece] at hput
  have hcount : add g.hash.filled taken
    = .ok (g.hash.fill (data.take taken)).filled := by
    rw [Ghash.fill, hpiece]
    exact add_eq (by unfold wordLimit; omega)
  have hrest : slice data taken data.length = .ok (data.drop taken) :=
    slice_length (by omega)
  have hshorter : (data.drop taken).length < data.length := by
    rw [List.length_drop]; omega
  dsimp only
  rw [hstart, ok_bind, hstop, ok_bind, hread, ok_bind, hput, ok_bind, hcount,
    ok_bind, hrest,
    ok_bind]
  refine (bind_eq (pack_fill g h hfits) _).trans ?_
  rw [if_pos hshorter,
    pack_absorb { g with hash := g.hash.absorb (data.take taken) } (h.absorb _)
      (data.drop taken),
    ← Ghash.absorb_append, List.take_append_drop]
termination_by data.length

/-! ## The message -/

/-- **A piece of the message, and the stream behind it**, once the
message has begun: the keystream is spent as far as the piece goes, and
the hash has taken in its ciphertext side. -/
def pass (g : Gcm) (direction : Direction) (piece : Bytes) : Bytes × Gcm :=
  let out := g.keystream.apply g.cipher.encrypt nextCounter piece
  let ciphertext := match direction with
    | .encrypt => out.1
    | .decrypt => piece
  (out.1, { g with keystream := out.2, hash := g.hash.absorb ciphertext })

/-- **A piece passes in parts**: the second part from where the first
has left the stream. -/
theorem pass_append (g : Gcm) (direction : Direction) (a b : Bytes) :
    g.pass direction (a ++ b)
      = ((g.pass direction a).1 ++ ((g.pass direction a).2.pass direction b).1,
          ((g.pass direction a).2.pass direction b).2) := by
  unfold pass
  cases direction <;> simp only [Keystream.apply_append, Ghash.absorb_append]

/-- Nothing passes without a trace: neither keystream nor hash has moved
after a piece without bytes. -/
theorem pass_nil (g : Gcm) (direction : Direction) :
    g.pass direction [] = ([], g) := by
  cases direction <;> rfl

theorem hash_pass {g : Gcm} (h : g.hash.Sound) (direction : Direction)
    (piece : Bytes) :
    (g.pass direction piece).2.hash.Sound := h.absorb _

/-- No more of the keystream block is spent behind a piece than there
is. -/
theorem spent_pass {g : Gcm} (h : g.keystream.spent ≤ 16)
    (direction : Direction) (piece : Bytes) :
    (g.pass direction piece).2.keystream.spent ≤ 16 :=
  Keystream.spent_apply_le _ _ h piece

/-- A keystream block is made before its first byte is wanted. Whether
it is made by the loop or has been made already, the piece comes out the
same. -/
theorem pass_refill (g : Gcm) (direction : Direction) {piece : Bytes}
    (hne : piece ≠ []) :
    pass { g with keystream := g.keystream.refill g.cipher.encrypt nextCounter }
      direction piece
        = g.pass direction piece := by
  unfold pass
  simp only [Keystream.apply_refill g.cipher.encrypt nextCounter hne]

/-- What is left of the keystream block, from where it has been handed
out to. -/
theorem slice_keystream (g : Gcm) {n : Nat} (h : g.keystream.spent + n ≤ 16) :
    slice g.pack.row (keystreamAt + g.keystream.spent)
      (keystreamAt + g.keystream.spent + n)
        = .ok ((g.keystream.block.toBytes.drop g.keystream.spent).take n) :=
  slice_within [g.origin, g.keystream.counter] [g.hash.pending, g.hash.key]
    g.keystream.block h

/-- **A stretch of the message**, which does not go beyond the keystream
block at hand: the two are added, and the hash takes in the ciphertext
side. -/
theorem pack_stretch (g : Gcm) (hhash : g.hash.Sound) (direction : Direction)
    {piece : Bytes} (hroom : g.keystream.spent + piece.length ≤ 16) :
    g.pack.stretch direction piece
      = .ok ((g.pass direction piece).1, pack (g.pass direction piece).2) := by
  have hstart : add keystreamAt g.keystream.spent
    = .ok (keystreamAt + g.keystream.spent) :=
    add_eq (by unfold wordLimit keystreamAt counterAt originAt; omega)
  have hstop : add (keystreamAt + g.keystream.spent) piece.length
      = .ok (keystreamAt + g.keystream.spent + piece.length) :=
    add_eq (by unfold wordLimit keystreamAt counterAt originAt; omega)
  have hcount : add g.keystream.spent piece.length
    = .ok (g.keystream.spent + piece.length) :=
    add_eq (by unfold wordLimit; omega)
  have hmask (hash : Ghash) := slice_keystream { g with hash } hroom
  have habsorb := pack_absorb g hhash
  unfold stretch pass
  rw [Keystream.apply_stretch _ _ hroom]
  cases direction with
  | encrypt =>
    rw [if_neg (by decide), pure_eq_ok, ok_bind, keystreamPosition_pack, hstart,
      ok_bind, hstop,
      ok_bind, hmask g.hash, ok_bind]
    dsimp only
    rw [if_pos rfl, habsorb, ok_bind, keystreamPosition_pack, hcount]
    rfl
  | decrypt =>
    rw [if_pos rfl, habsorb, ok_bind, keystreamPosition_pack, hstart, ok_bind,
      hstop, ok_bind,
      hmask (g.hash.absorb piece), ok_bind]
    dsimp only
    rw [if_neg (by decide), pure_eq_ok, ok_bind, keystreamPosition_pack, hcount]
    rfl

/-- **A buffer is transformed**, as much of it at once as there is of
the keystream block. What has been written so far is carried along, and
the recursion is on what is left of the buffer. -/
theorem pack_crypt (g : Gcm) (hhash : g.hash.Sound)
    (hspent : g.keystream.spent ≤ 16) (direction : Direction) {buffer : Bytes}
    (hbuffer : buffer.length < 2 ^ 61) (done : Bytes) {offset : Nat}
    (hoffset : offset ≤ buffer.length) :
    g.pack.crypt direction buffer done offset
      = .ok (done ++ (g.pass direction (buffer.drop offset)).1,
          pack (g.pass direction (buffer.drop offset)).2) := by
  rw [crypt]
  by_cases hend : offset < buffer.length
  · -- The stretch is cut off by the block that there is after the refill.
    have hrefill {piece : Bytes} (hne : piece ≠ []) :=
      g.pass_refill direction hne
    have hlt := Keystream.spent_refill_lt g.cipher.encrypt nextCounter hspent
    rw [if_pos hend, pack_refill, ok_bind]
    generalize hg :
      { g with keystream := g.keystream.refill g.cipher.encrypt nextCounter }
        = g₁
      at hrefill
    replace hlt : g₁.keystream.spent < 16 := hg ▸ hlt
    have hhash₁ : g₁.hash.Sound := hg ▸ hhash
    obtain ⟨stop, piece, hstop, hpiece, hcut, hmore, hle, hroom, hne⟩ :=
      exists_stretch hlt hend hbuffer
    rw [keystreamPosition_pack, sub_eq (Nat.le_of_lt hlt), ok_bind,
      sub_eq hoffset, ok_bind,
      hstop, ok_bind, hpiece, ok_bind, pack_stretch g₁ hhash₁ direction hroom,
      ok_bind,
      hrefill hne, hcut, pass_append]
    dsimp only
    rw [if_pos hmore, pack_crypt _ (hash_pass hhash direction piece)
      (spent_pass hspent direction piece) direction hbuffer _ hle,
        List.append_assoc]
  · rw [if_neg hend, List.drop_of_length_le (Nat.le_of_not_lt hend), pass_nil,
      List.append_nil]
    rfl
termination_by buffer.length - offset

/-! ## The calls -/

/-- **A message begun in memory** or refused for its nonce, as by the
stream. The bound is for the length of the nonce in bits. -/
theorem pack_reset (g : Gcm) {nonce : Bytes} (h : nonce.length < 2 ^ 61) :
    g.pack.reset nonce = .ok (match g.reset nonce with
      | .ok g' => (⟨.ok (), []⟩, g'.pack)
      | .error e => (⟨.error e, []⟩, g.pack)) := by
  unfold Packed.reset Gcm.reset
  by_cases hnil : nonce.isEmpty
  · rw [if_pos hnil, if_pos hnil]
    rfl
  · rw [if_neg hnil, if_neg hnil, pack_deriveOrigin g h, ok_bind]
    generalize startBlock g.hash.key nonce = origin
    have hread : slice (pack { g with origin }).row originAt keystreamAt
        = .ok (origin.toBytes ++ g.keystream.counter.toBytes) := by
      rw [← Block.row_pair]
      exact slice_row [] [origin, g.keystream.counter] _
    have hcopy :
      put g.keystream.counter.toBytes 0 g.keystream.counter.toBytes.length
        origin.toBytes = .ok origin.toBytes :=
      put_whole (by rw [Block.length_toBytes, Block.length_toBytes])
    have hwrite (counter : Block) :
        put (pack { g with origin }).row originAt keystreamAt
          (origin.toBytes ++ counter.toBytes)
            = .ok (pack { g with
                origin
                keystream := { g.keystream with counter } }).row := by
      rw [← Block.row_pair]
      exact put_row [] [origin, g.keystream.counter] _ rfl
    have hwipe (counter : Block) :
        wipe (pack
            { g with origin, keystream := { g.keystream with counter } }).row
          keystreamAt hashKeyAt
            = .ok (pack { g with
                origin
                keystream := Keystream.start counter
                hash := { g.hash with pending := Block.zero } }).row :=
      wipe_row [origin, counter] [g.keystream.block, g.hash.pending]
        [g.hash.key]
    have hfresh (counter : Block) := pack_freshHash { g with
      origin
      keystream := Keystream.start counter
      hash := { g.hash with pending := Block.zero } }
    rw [hread, ok_bind, splitAt_append origin.length_toBytes, ok_bind]
    dsimp only
    rw [hcopy, ok_bind, increment_toBytes, ok_bind, hwrite, ok_bind, hwipe,
      ok_bind]
    exact bind_eq (hfresh (nextCounter origin)) _

/-- A nonce that is longer in bits than a word can say is where a reset
stops. -/
theorem pack_reset_tooLarge (g : Gcm) {nonce : Bytes}
    (h : 2 ^ 61 ≤ nonce.length) :
    g.pack.reset nonce = .error .tooLarge := by
  have hbits : mul nonce.length 8 = .error .tooLarge :=
    if_neg (by unfold wordLimit; omega)
  have hnil : ¬nonce.isEmpty := by
    rw [List.isEmpty_iff_length_eq_zero]
    omega
  have hn : nonce.length ≠ nonceLength := by unfold nonceLength; omega
  unfold Packed.reset deriveOrigin
  rw [if_neg hnil, if_neg hn, pack_freshHash, ok_bind, hbits]
  rfl

/-- **Associated data taken in in memory**, or refused as by the stream.
There is no bound, because the limit is checked before anything is added
up. -/
theorem Sound.pack_authenticate {g : Gcm} (h : g.Sound) (data : Bytes) :
    g.pack.authenticate data = .ok (match g.authenticate data with
      | .ok g' => (⟨.ok (), []⟩, g'.pack)
      | .error e => (⟨.error e, []⟩, g.pack)) := by
  have habsorb (aadLength : Nat) := pack_absorb { g with aadLength } h.hash data
  unfold Packed.authenticate Gcm.authenticate
  rw [show g.pack.inMessage = g.inMessage from rfl,
    show g.pack.aadLength = g.aadLength from rfl,
    sumWithin?_eq (by decide)]
  by_cases hm : g.inMessage
  · rw [if_pos hm, if_pos hm]
    rfl
  · rw [if_neg hm, if_neg hm]
    by_cases hlong : g.aadLength + data.length > maxAadLength
    · rw [if_pos hlong, if_pos hlong]
      rfl
    · rw [if_neg hlong, if_neg hlong]
      exact bind_eq (habsorb (g.aadLength + data.length)) _

/-- The message begun in memory: what is pending of the associated data
is added in, unless the message has begun before. -/
theorem Sound.pack_beginMessage {g : Gcm} (h : g.Sound) :
    g.pack.beginMessage = .ok g.beginMessage.pack := by
  unfold Packed.beginMessage Gcm.beginMessage
  rw [show g.pack.inMessage = g.inMessage from rfl]
  by_cases hm : g.inMessage
  · rw [if_pos hm, if_pos hm]
    rfl
  · rw [if_neg hm, if_neg hm,
      pack_flushPending g (Nat.le_of_lt h.hash.filled_lt) h.hash.pending_eq]
    rfl

/-- Beginning the message leads from one stream that can come up to
another, since completing the pending block leaves a hash that can come
up. -/
theorem Sound.beginMessage {g : Gcm} (h : g.Sound) : g.beginMessage.Sound := by
  unfold Gcm.beginMessage
  split
  · exact h
  · exact ⟨h.hash.flush, h.spent, h.aadLength, h.messageLength⟩

/-- A transform that is granted passes the piece through, behind the
beginning of the message, and counts it. -/
theorem transform_eq (g : Gcm) (direction : Direction) (piece : Bytes) :
    g.transform direction piece
      = if g.messageLength + piece.length > maxMessageLength then
        .error .messageTooLong
        else .ok ((g.beginMessage.pass direction piece).1,
          { (g.beginMessage.pass direction piece).2 with
              messageLength := g.messageLength + piece.length }) := by
  have hlength : g.beginMessage.messageLength = g.messageLength := by
    rw [beginMessage_eq]
  unfold Gcm.transform
  rw [← hlength]
  rfl

/-- A transform leaves as many bytes as it was given, so that they fit
where the piece was read. -/
theorem length_of_transform {g : Gcm} {direction : Direction} {piece : Bytes}
    {out : Bytes × Gcm} (hg : g.transform direction piece = .ok out) :
    out.1.length = piece.length := by
  rw [transform_eq] at hg
  split at hg <;> cases hg
  exact Keystream.length_apply ..

/-- **A buffer transformed in memory**, or refused and left as it was,
as by the stream. -/
theorem Sound.pack_transform {g : Gcm} (h : g.Sound) (direction : Direction)
    (buffer : Bytes) :
    g.pack.transform direction buffer
      = .ok (match g.transform direction buffer with
      | .ok (result, g') => (⟨.ok (), result⟩, g'.pack)
      | .error e => (⟨.error e, buffer⟩, g.pack)) := by
  rw [transform_eq]
  unfold Packed.transform
  rw [show g.pack.messageLength = g.messageLength from rfl,
    sumWithin?_eq (by decide)]
  by_cases hlong : g.messageLength + buffer.length > maxMessageLength
  · rw [if_pos hlong, if_pos hlong]
    rfl
  · have hbuffer : buffer.length < 2 ^ 61 := by
      unfold maxMessageLength at hlong
      omega
    have hcrypt :=
      pack_crypt g.beginMessage h.beginMessage.hash h.beginMessage.spent
      direction
      hbuffer [] (Nat.zero_le _)
    rw [if_neg hlong, if_neg hlong]
    dsimp only
    rw [h.pack_beginMessage, ok_bind, hcrypt]
    rfl

/-- What is pending is added into a copy of the hash, so that a tag does
not disturb the message. -/
theorem Sound.pack_pendingHash {g : Gcm} (h : g.Sound) :
    g.pack.pendingHash = .ok ⟨g.hash.key, g.hash.flush.sum⟩ := by
  unfold pendingHash
  rw [pendingLength_pack]
  by_cases hpos : 0 < g.hash.filled
  · have hle : g.hash.filled ≤ 16 := Nat.le_of_lt h.hash.filled_lt
    have hstop : add pendingAt g.hash.filled
      = .ok (pendingAt + g.hash.filled) :=
      add_eq (by
          unfold wordLimit pendingAt keystreamAt counterAt originAt; omega)
    have hread : slice g.pack.row pendingAt (pendingAt + g.hash.filled)
        = .ok (g.hash.pending.toBytes.take g.hash.filled) :=
      slice_within [g.origin, g.keystream.counter, g.keystream.block]
        [g.hash.key] g.hash.pending
        (i := 0) (by omega)
    rw [if_pos hpos, hstop, ok_bind, hread, ok_bind,
      Ghash.flush_eq_foldl (by omega) hle h.hash.pending_eq]
    rfl
  · rw [if_neg hpos, Ghash.flush, if_pos (by omega)]
    rfl

/-- **A tag written in memory**, or refused for its length, with the
memory as it was in both cases. -/
theorem Sound.pack_tag {g : Gcm} (h : g.Sound) (buffer : Bytes) :
    g.pack.tag buffer = .ok (match g.tag buffer.length with
      | .ok tag => (⟨.ok (), tag⟩, g.pack)
      | .error e => (⟨.error e, buffer⟩, g.pack)) := by
  have hempty : buffer.isEmpty = true ↔ buffer.length = 0 :=
    List.isEmpty_iff_length_eq_zero
  unfold Packed.tag Gcm.tag
  by_cases hn : buffer.length = 0 ∨ buffer.length > maxTagLength
  · rw [if_pos hn, if_pos (hn.imp_left hempty.mpr)]
    rfl
  · have haadBits : g.aadLength * 8 < wordLimit :=
      Nat.lt_of_le_of_lt (Nat.mul_le_mul_right 8 h.aadLength) (by decide)
    have hmessageBits : g.messageLength * 8 < wordLimit :=
      Nat.lt_of_le_of_lt (Nat.mul_le_mul_right 8 h.messageLength) (by decide)
    have haad : mul g.aadLength 8 = .ok (g.aadLength * 8) := mul_eq haadBits
    have hmessage : mul g.messageLength 8 = .ok (g.messageLength * 8) :=
      mul_eq hmessageBits
    have horigin : slice g.pack.row originAt (originAt + 16)
      = .ok g.origin.toBytes :=
      slice_block [] _ g.origin
    have hcopy : put (Bytes.zeros 16) 0 (Bytes.zeros 16).length g.origin.toBytes
        = .ok g.origin.toBytes := put_whole g.origin.length_toBytes
    rw [Bytes.length_zeros] at hcopy
    have hover : Bytes.overwrite g.fullTag.toBytes buffer
        = g.fullTag.toBytes.take buffer.length := by
      unfold Bytes.overwrite
      rw [List.drop_of_length_le
        (by rw [Block.length_toBytes]; unfold maxTagLength at hn; omega),
        List.append_nil]
    rw [if_neg hn, if_neg (fun h => hn (h.imp_left hempty.mp)),
      h.pack_pendingHash, ok_bind,
      show g.pack.aadLength = g.aadLength from rfl, haad, ok_bind,
        put_firstLength, ok_bind,
      show g.pack.messageLength = g.messageLength from rfl, hmessage, ok_bind,
        put_secondLength,
      ok_bind]
    dsimp only
    rw [horigin, ok_bind, hcopy, ok_bind,
      show g.pack.cipher = g.cipher from rfl,
      encrypt_toBytes, ok_bind, Ghash.Accumulator.updatePadded_toBytes,
      Ghash.Accumulator.finalize, ← Block.toBytes_xor, ← hover]
    rfl

/-! ## What stays true of a stream -/

/-- A stream that has just been made can come up: its hash is fresh, and
its two lengths are zero. -/
theorem Sound.ofCipher (cipher : BlockCipher) : (Gcm.ofCipher cipher).Sound :=
  ⟨.start _, Nat.le_refl 16, Nat.zero_le _, Nat.zero_le _⟩

/-- A nonce leads to a stream that can come up, from whatever was there,
since it begins the hash, the keystream and both lengths anew. -/
theorem sound_of_reset {g g' : Gcm} {nonce : Bytes}
    (hg : g.reset nonce = .ok g') :
    g'.Sound := by
  unfold Gcm.reset at hg
  split at hg
  · cases hg
  · cases hg
    exact ⟨.start _, Nat.le_refl 16, Nat.zero_le _, Nat.zero_le _⟩

/-- Associated data that is taken in leads from one stream that can come
up to another; the check keeps the limit. -/
theorem Sound.of_authenticate {g g' : Gcm} (h : g.Sound) {data : Bytes}
    (hg : g.authenticate data = .ok g') : g'.Sound := by
  unfold Gcm.authenticate at hg
  split at hg
  · cases hg
  · split at hg
    · cases hg
    · next hlong =>
      cases hg
      exact ⟨h.hash.absorb data, h.spent, Nat.le_of_not_lt hlong,
        h.messageLength⟩

/-- So does a piece that is transformed, for the same reason and because
no more of a keystream block is spent than there is. -/
theorem Sound.of_transform {g : Gcm} (h : g.Sound) {direction : Direction}
    {piece : Bytes} {out : Bytes × Gcm}
    (hg : g.transform direction piece = .ok out) : out.2.Sound := by
  rw [transform_eq] at hg
  split at hg
  · cases hg
  · next hlong =>
    cases hg
    exact ⟨hash_pass h.beginMessage.hash direction piece,
      spent_pass h.beginMessage.spent direction piece, h.beginMessage.aadLength,
      Nat.le_of_not_lt hlong⟩

/-- **A stream is laid out under a key**, and no nonce has come yet. The
hash key is the encrypted zero block, written to its place in the row. -/
theorem pack_ofCipher (cipher : BlockCipher) :
    Packed.ofCipher cipher = .ok (Gcm.ofCipher cipher).pack := by
  have hzeros : Bytes.zeros rowLength
    = Block.row (List.replicate 4 Block.zero ++ [Block.zero]) :=
    (Block.row_replicate_zero 5).symm
  have hread (b : Block) :
    slice (Block.row (List.replicate 4 Block.zero ++ [b])) hashKeyAt
      (hashKeyAt + 16) = .ok b.toBytes :=
        slice_block (List.replicate 4 Block.zero) [] b
  have hwrite (b : Block) :
    put (Block.row (List.replicate 4 Block.zero ++ [Block.zero])) hashKeyAt
      (hashKeyAt + 16) b.toBytes
        = .ok (Block.row (List.replicate 4 Block.zero ++ [b])) :=
    put_block (List.replicate 4 Block.zero) [] Block.zero b
  unfold Packed.ofCipher Ghash.Accumulator.start
  dsimp only
  rw [hzeros, hread, ok_bind, encrypt_toBytes, ok_bind, hwrite, ok_bind, hread,
    ok_bind,
    block_toBytes]
  rfl

end Aead.Gcm

end Strongbox
