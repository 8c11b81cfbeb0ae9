import Strongbox.Proofs.Aead.Stream

/-!
# How much may be given

Both modes have a limit on the message, and Galois/counter mode has one
on the associated data. What counts against them is all that has been
granted since the latest nonce, in pieces of whatever sizes, and nothing
else: `Tally` keeps that count from the calls and their answers alone,
and `keepsLimits_of_ofKey` says that every stream goes by it. A piece is
refused as too long exactly when the count with it is beyond the limit.

A stream counts in places of its own. Galois/counter mode has two
numbers, counter with CBC-MAC mode the plaintext that it keeps;
`Stream.Counts` is what these have to do with the tally. The limits are
such that the lengths fit the fields in which they are authenticated,
two of eight bytes in the first mode and one in the second, of as many
bytes as the nonce leaves. The bytes of these fields are therefore the
lengths themselves, and not only their remainders.

* `Tally.next` counts an exchange, and `Tally.ofRecord` a record. The
  tally knows the latest nonce, because a new one sets it to nothing and
  because one mode's limit depends on its length.
* `Gcm.Counts`, `Ccm.Counts` and `Stream.Counts` relate the stream to
  its tally; `Counts.step` and `Counts.after` carry the relation through
  a history, refused calls included.
* `KeepsLimits` is what is promised of a stream with such a tally: which
  pieces and how much associated data it takes, and that the length
  fields it authenticates are exact.

The limits are stated as numbers, `2 ^ 36 - 32` and so on, and
`Mode.maxMessageLength_eq` says that the streams' own constants are
these.
-/

namespace Strongbox.Aead

/-- **The length of the longest message** under a nonce of `n` bytes. In
Galois/counter mode it is what a 32-bit counter can number, less the
mask and one more block; in counter with CBC-MAC mode what the field
beside the nonce can hold. -/
def Mode.messageLimit : Mode → (n : Nat) → Nat
  | gcm, _ => 2 ^ 36 - 32
  | ccm, n => 2 ^ (8 * (15 - n)) - 1

/-- The length of the longest associated data in Galois/counter mode:
the most bytes of which the number of bits fits in eight bytes. -/
def Mode.aadLimit : Nat := 2 ^ 61 - 1

/-- The limit that the streams check against is the one above, for a
nonce of any length. -/
theorem Mode.maxMessageLength_eq (mode : Mode) (nonce : Bytes) :
    mode.maxMessageLength nonce = mode.messageLimit nonce.length := by
  cases mode with
  | gcm => rfl
  | ccm => exact congrArg (· - 1) (Nat.one_shiftLeft _)

/-! ## What has been given -/

/-- **What a stream has been given since the latest nonce**, in lengths.
It is kept by an onlooker, who sees the calls and which were granted. -/
structure Tally where
  /-- The nonce, once there has been one. -/
  nonce? : Option Bytes
  /-- How much associated data has been taken in. -/
  aad : Nat
  /-- How much of a message has been transformed. -/
  message : Nat
  /-- Whether a transform has been made, of nothing also. -/
  begun : Bool

namespace Tally

/-- Nothing has been given, not even a nonce: the tally of the record of
no calls. -/
def zero : Tally := ⟨none, 0, 0, false⟩

/-- **The tally after an exchange.** A nonce begins anew, and what is
refused does not count. -/
def next (t : Tally) : Exchange Stream.Call StreamError → Tally
  | ⟨.reset nonce, ⟨.ok _, _⟩⟩ => ⟨some nonce, 0, 0, false⟩
  | ⟨.authenticate data, ⟨.ok _, _⟩⟩ => { t with aad := t.aad + data.length }
  | ⟨.transform _ piece, ⟨.ok _, _⟩⟩ =>
    { t with message := t.message + piece.length, begun := true }
  | _ => t

/-- **The tally of a record**, counted from its first exchange to its
last. -/
def ofRecord (record : List (Exchange Stream.Call StreamError)) : Tally :=
  record.foldl next zero

/-- What is refused does not count, whatever was asked for and whatever
the buffer then holds. -/
theorem next_error (t : Tally) (call : Stream.Call) (e : StreamError)
    (buffer : Bytes) :
    t.next ⟨call, ⟨.error e, buffer⟩⟩ = t := by
  cases call <;> rfl

/-- A piece that is granted counts whole, in both directions, and begins
the message even if it is empty. -/
theorem next_transform (t : Tally) (direction : Direction) (piece : Bytes)
    {reply : Reply StreamError} (h : reply.outcome = .ok ()) :
    t.next ⟨.transform direction piece, reply⟩
      = { t with message := t.message + piece.length, begun := true } := by
  obtain ⟨outcome, buffer⟩ := reply
  cases h
  rfl

/-- Why more associated data is refused in Galois/counter mode: because
the message has begun, or because there would be too much of it. The
first reason goes before the second. -/
def aadRefusal? (t : Tally) (n : Nat) : Option StreamError :=
  if t.begun then some .aadAfterMessage
  else if Mode.aadLimit < t.aad + n then some .aadTooLong
  else none

/-- Why another piece of the message is refused: because the message
would be too long with it. There is no other reason, once there is a
nonce. -/
def messageRefusal? (mode : Mode) (t : Tally) (nonce : Bytes) (n : Nat) :
    Option StreamError :=
  if mode.messageLimit nonce.length < t.message + n then some .messageTooLong
  else none

end Tally

/-! ## What a stream counts -/

/-- **A stream in Galois/counter mode counts in two numbers**, before
the first nonce as well. -/
structure Gcm.Counts (t : Tally) (g : Gcm) : Prop where
  /-- One is the length of the associated data. -/
  aadLength_eq : g.aadLength = t.aad
  /-- The other is that of the message. -/
  messageLength_eq : g.messageLength = t.message
  /-- Whether the message has begun is kept. -/
  inMessage_eq : g.inMessage = t.begun
  /-- The associated data is within the limit. -/
  aad_le : t.aad ≤ Mode.aadLimit
  /-- The message is within the limit. -/
  message_le : t.message ≤ 2 ^ 36 - 32

/-- **A stream in counter with CBC-MAC mode keeps what it counts**, and
before the first nonce it has nothing to count. -/
inductive Ccm.Counts : Tally → Ccm → Prop
  /-- There has been no nonce. -/
  | blank (cipher : BlockCipher) (tagLength : Nat) {t : Tally}
    (hnonce : t.nonce? = none) :
    Counts t ⟨cipher, tagLength, none⟩
  /-- There is a message under the latest nonce. -/
  | carrying (cipher : BlockCipher) (tagLength : Nat) {t : Tally} {m : Message}
    (hnonce : t.nonce? = some m.nonce) (htakes : Mode.ccm.TakesNonce m.nonce)
    (hlength : m.plaintext.length = t.message)
    (hle : t.message ≤ Mode.ccm.messageLimit m.nonce.length) :
    Counts t ⟨cipher, tagLength, some m⟩

namespace Gcm

variable {t : Tally} {g : Gcm}

theorem Counts.ofCipher (cipher : BlockCipher) :
    Counts .zero (Gcm.ofCipher cipher) :=
  ⟨rfl, rfl, rfl, Nat.zero_le _, Nat.zero_le _⟩

theorem counts_of_reset {nonce : Bytes} {g' : Gcm}
    (hg : g.reset nonce = .ok g') :
    Counts ⟨some nonce, 0, 0, false⟩ g' := by
  unfold Gcm.reset at hg
  split at hg <;> cases hg
  exact ⟨rfl, rfl, rfl, Nat.zero_le _, Nat.zero_le _⟩

/-- **Associated data is counted** as long as it is not refused, and it
is refused as the tally says: after the message has begun, or for its
length. -/
theorem Counts.authenticate (h : Counts t g) (data : Bytes) :
    Settles (t.aadRefusal? data.length)
      (Counts { t with aad := t.aad + data.length })
      (g.authenticate data) := by
  unfold Gcm.authenticate Tally.aadRefusal?
  rw [h.inMessage_eq, h.aadLength_eq]
  by_cases hb : t.begun = true
  · rw [if_pos hb, if_pos hb]
    rfl
  · rw [if_neg hb, if_neg hb]
    by_cases hlong : Mode.aadLimit < t.aad + data.length
    · rw [if_pos hlong,
        if_pos (show t.aad + data.length > maxAadLength from hlong)]
      rfl
    · rw [if_neg hlong,
        if_neg (show ¬t.aad + data.length > maxAadLength from hlong)]
      exact ⟨_, rfl, rfl, h.messageLength_eq, rfl, Nat.le_of_not_lt hlong,
        h.message_le⟩

/-- **The message is counted** as long as it is not refused. Both the
check and the count are of all that was given since the nonce, not of
the piece alone. -/
theorem Counts.transform (h : Counts t g) (nonce : Bytes)
    (direction : Direction) (piece : Bytes) :
    Settles (t.messageRefusal? .gcm nonce piece.length)
      (fun out =>
          Counts { t with message := t.message + piece.length, begun := true }
          out.2)
      (g.transform direction piece) := by
  unfold Gcm.transform Tally.messageRefusal?
  rw [h.messageLength_eq, beginMessage_eq]
  by_cases hlong : Mode.gcm.messageLimit nonce.length < t.message + piece.length
  · rw [if_pos hlong,
      if_pos (show t.message + piece.length > maxMessageLength from hlong)]
    rfl
  · rw [if_neg hlong,
      if_neg (show ¬t.message + piece.length > maxMessageLength from hlong)]
    exact ⟨_, rfl, h.aadLength_eq,
      congrArg (· + piece.length) h.messageLength_eq, rfl, h.aad_le,
      Nat.le_of_not_lt hlong⟩

end Gcm

namespace Ccm

variable {t : Tally} {c : Ccm}

theorem counts_of_reset {nonce : Bytes} {c' : Ccm}
    (hc : c.reset nonce = .ok c') :
    Counts ⟨some nonce, 0, 0, false⟩ c' := by
  unfold Ccm.reset at hc
  split at hc
  · cases hc
  · next hn =>
    cases hc
    exact .carrying c.cipher c.tagLength rfl
      ⟨Nat.le_of_not_lt fun h => hn (.inl h),
        Nat.le_of_not_lt fun h => hn (.inr h)⟩ rfl
      (Nat.zero_le _)

/-- Associated data does not count against the limit on the message, and
has no limit of its own in this mode. -/
theorem Counts.of_authenticate (h : Counts t c) {data : Bytes} {c' : Ccm}
    (hc : c.authenticate data = .ok c') :
    Counts { t with aad := t.aad + data.length } c' := by
  unfold Ccm.authenticate at hc
  cases h with
  | blank => cases hc
  | carrying cipher tagLength hnonce htakes hlength hle =>
    dsimp only at hc
    split at hc <;> cases hc
    exact .carrying cipher tagLength hnonce htakes hlength hle

/-- Before the first nonce nothing is transformed: the stream has no
message to add a piece to, and refuses. -/
theorem Counts.of_transform (h : Counts t c) {direction : Direction}
    {piece : Bytes} {out : Bytes × Ccm}
    (hc : c.transform direction piece = .ok out) :
    ∃ nonce, t.nonce? = some nonce := by
  cases h with
  | blank => cases hc
  | carrying _ _ hnonce => exact ⟨_, hnonce⟩

/-- **The message is counted** by the plaintext that is kept of it,
whichever side of a piece that is. The two sides have one length, so
that it does not matter for the count. -/
theorem Counts.transform (h : Counts t c) {nonce : Bytes}
    (hn : t.nonce? = some nonce) (direction : Direction) (piece : Bytes) :
    Settles (t.messageRefusal? .ccm nonce piece.length)
      (fun out =>
          Counts { t with message := t.message + piece.length, begun := true }
          out.2)
      (c.transform direction piece) := by
  unfold Ccm.transform Tally.messageRefusal?
  cases h with
  | blank _ _ hnonce => exact nomatch hn.symm.trans hnonce
  | @carrying cipher tagLength _ m hnonce htakes hlength hle =>
    obtain rfl : nonce = m.nonce := Option.some.inj (hn.symm.trans hnonce)
    dsimp only
    rw [hlength, ← Mode.maxMessageLength_eq]
    by_cases hlong : Mode.ccm.maxMessageLength m.nonce
      < t.message + piece.length
    · rw [if_pos hlong,
        if_pos (show t.message + piece.length
            > Ccm.maxMessageLength m.nonce from hlong)]
      rfl
    · rw [if_neg hlong,
        if_neg (show ¬t.message + piece.length
            > Ccm.maxMessageLength m.nonce from hlong)]
      refine ⟨_, rfl, .carrying cipher tagLength hnonce htakes ?_ ?_⟩
      · cases direction with
        | encrypt => rw [List.length_append, hlength]
        | decrypt => rw [List.length_append, hlength, Keystream.length_apply]
      · rw [← Mode.maxMessageLength_eq]
        exact Nat.le_of_not_lt hlong

end Ccm

namespace Stream

/-- **What a stream counts**, in the way of its mode. It holds before
the first nonce, when there is nothing to count. -/
inductive Counts : Mode → Tally → Stream → Prop
  /-- In Galois/counter mode. -/
  | gcm {t : Tally} {g : Gcm} (h : Gcm.Counts t g) : Counts .gcm t (.gcm g)
  /-- In counter with CBC-MAC mode. -/
  | ccm {t : Tally} {c : Ccm} (h : Ccm.Counts t c) : Counts .ccm t (.ccm c)

variable {mode : Mode} {t : Tally} {s : Stream}

/-- **The message is counted** against the limit of its nonce, in either
mode. The nonce is the one that the tally knows. -/
theorem Counts.transform (h : Counts mode t s) {nonce : Bytes}
    (hn : t.nonce? = some nonce) (direction : Direction) (piece : Bytes) :
    Settles (t.messageRefusal? mode nonce piece.length)
      (fun out =>
          Counts mode
          { t with message := t.message + piece.length, begun := true } out.2)
      (s.transform direction piece) := by
  cases h with
  | gcm h =>
    exact (h.transform nonce direction piece).map
      (fun out => (out.1, Stream.gcm out.2))
      fun _ h' => .gcm h'
  | ccm h =>
    exact (h.transform hn direction piece).map
      (fun out => (out.1, Stream.ccm out.2))
      fun _ h' => .ccm h'

/-- A nonce that is taken begins the count anew, whatever was counted
before. -/
theorem Counts.of_reset (h : Counts mode t s) {nonce : Bytes} {s' : Stream}
    (hs : s.reset nonce = .ok s') :
    Counts mode ⟨some nonce, 0, 0, false⟩ s' := by
  cases h with
  | gcm =>
    obtain ⟨g', hg, rfl⟩ := exists_of_map_eq_ok hs
    exact .gcm (Gcm.counts_of_reset hg)
  | ccm =>
    obtain ⟨c', hc, rfl⟩ := exists_of_map_eq_ok hs
    exact .ccm (Ccm.counts_of_reset hc)

/-- Associated data that is taken in is counted, in either mode. Only
the first mode has a number for it, since only there is it limited. -/
theorem Counts.of_authenticate (h : Counts mode t s) {data : Bytes}
    {s' : Stream} (hs : s.authenticate data = .ok s') :
    Counts mode { t with aad := t.aad + data.length } s' := by
  cases h with
  | gcm h =>
    obtain ⟨g', hg, rfl⟩ := exists_of_map_eq_ok hs
    exact .gcm ((h.authenticate data).of_ok hg)
  | ccm h =>
    obtain ⟨c', hc, rfl⟩ := exists_of_map_eq_ok hs
    exact .ccm (h.of_authenticate hc)

/-- A piece that is transformed is counted. Before the first nonce one
mode transforms against an empty message, and the other refuses. -/
theorem Counts.of_transform (h : Counts mode t s) {direction : Direction}
    {piece : Bytes} {out : Bytes × Stream}
    (hs : s.transform direction piece = .ok out) :
    Counts mode { t with message := t.message + piece.length, begun := true }
      out.2 := by
  cases h with
  | gcm h =>
    -- Here the limit is the same under every nonce, and without one.
    obtain ⟨out', hg, rfl⟩ := exists_of_map_eq_ok hs
    exact .gcm ((h.transform [] direction piece).of_ok hg)
  | ccm h =>
    obtain ⟨out', hc, rfl⟩ := exists_of_map_eq_ok hs
    obtain ⟨nonce, hn⟩ := h.of_transform hc
    exact .ccm ((h.transform hn direction piece).of_ok hc)

/-- **A stream goes on counting what the tally counts**, through a call
of any kind. A refused call and a tag leave both as they were. -/
theorem Counts.step (h : Counts mode t s) (call : Call) :
    Counts mode (t.next ⟨call, (s.step call).1⟩) (s.step call).2 := by
  unfold Stream.step
  cases call with
  | reset nonce =>
    cases hs : s.reset nonce with
    | error e => simpa only [hs, Tally.next_error] using h
    | ok s' => simp only [hs]; exact h.of_reset hs
  | authenticate data =>
    cases hs : s.authenticate data with
    | error e => simpa only [hs, Tally.next_error] using h
    | ok s' => simp only [hs]; exact h.of_authenticate hs
  | transform direction piece =>
    cases hs : s.transform direction piece with
    | error e => simpa only [hs, Tally.next_error] using h
    | ok out => simp only [hs]; exact h.of_transform hs
  | tag buffer =>
    cases hs : s.tag buffer.length <;> (simp only [hs]; exact h)

/-- A stream goes on counting what the tally counts through any list of
calls: the record of the calls is folded as the stream takes them. -/
theorem Counts.after (h : Counts mode t s) (calls : List Call) :
    Counts mode ((Aead.record Stream.step s calls).foldl Tally.next t)
      (Aead.after Stream.step s calls) := by
  induction calls generalizing t s with
  | nil => exact h
  | cons call calls ih => exact ih (h.step call)

/-! ## The limits -/

/-- **A stream goes by the limits** when it has come to a tally. Each
limit is on a sum, and is exact: what does not pass it is granted, as
far as lengths are concerned. -/
structure KeepsLimits (mode : Mode) (t : Tally) (s : Stream) : Prop where
  /-- A piece is too long if the message would be with it, and is
  granted else. -/
  transform {nonce : Bytes} (hnonce : t.nonce? = some nonce)
    (direction : Direction)
    (piece : Bytes) : (s.step (.transform direction piece)).1.outcome
      = if mode.messageLimit nonce.length < t.message + piece.length then
        .error .messageTooLong
        else .ok ()
  /-- Before the message begins, associated data is too long if there
  would be too much of it, and is granted else. -/
  authenticate (hmode : mode = .gcm) (hbegun : t.begun = false) (data : Bytes) :
    (s.step (.authenticate data)).1.outcome
      = if Mode.aadLimit < t.aad + data.length then .error .aadTooLong
        else .ok ()
  /-- The block that closes the hash has both lengths in it, in bits and
  to the last one. -/
  closing (hmode : mode = .gcm) : ∃ g block, s = .gcm g
    ∧ g.fullTag = (g.cipher.encrypt g.origin).xor (g.hash.digest block)
    ∧ 8 * t.aad < 2 ^ 64 ∧ Bytes.ofBigEndian (block.toBytes.take 8) = 8 * t.aad
    ∧ 8 * t.message < 2 ^ 64
      ∧ Bytes.ofBigEndian (block.toBytes.drop 8) = 8 * t.message
  /-- The block that opens the chain has the length of the message in
  it, behind the nonce and in full. -/
  opening (hmode : mode = .ccm) {nonce : Bytes}
    (hnonce : t.nonce? = some nonce) :
    ∃ c m block rest, s = .ccm c ∧ c.message? = some m ∧ m.nonce = nonce
      ∧ Ccm.macBlocks c.tagLength m.nonce m.aad m.plaintext = block :: rest
      ∧ m.mac c.cipher.encrypt c.tagLength
        = CbcMac.ofBlocks c.cipher.encrypt (block :: rest)
      ∧ Bytes.ofBigEndian (block.toBytes.drop (1 + nonce.length)) = t.message

/-- How a transform is answered, from what is to become of it: with the
refusal if there is one, and granted if there is none. -/
theorem outcome_transform {refusal? : Option StreamError}
    {P : Bytes × Stream → Prop} {direction : Direction} {piece : Bytes}
    (h : Settles refusal? P (s.transform direction piece)) :
    (s.step (.transform direction piece)).1.outcome
      = refusal?.elim (.ok ()) .error := by
  unfold Stream.step
  cases refusal? with
  | some e =>
    have h : s.transform direction piece = .error e := h
    simp only [h, Option.elim_some]
  | none =>
    obtain ⟨out, h, -⟩ := h
    simp only [h, Option.elim_none]

/-- How associated data is answered, from what is to become of it, in
the same way. -/
theorem outcome_authenticate {refusal? : Option StreamError} {P : Stream → Prop}
    {data : Bytes} (h : Settles refusal? P (s.authenticate data)) :
    (s.step (.authenticate data)).1.outcome
      = refusal?.elim (.ok ()) .error := by
  unfold Stream.step
  cases refusal? with
  | some e =>
    have h : s.authenticate data = .error e := h
    simp only [h, Option.elim_some]
  | none =>
    obtain ⟨s', h, -⟩ := h
    simp only [h, Option.elim_none]

/-- Both fields of the block that closes the hash are wide enough: eight
bytes hold either length in bits, so that what is read from them is the
length itself. -/
theorem Counts.closing {g : Gcm} (h : g.Counts t) :
    8 * t.aad < 2 ^ 64
      ∧ Bytes.ofBigEndian ((Gcm.lengthBlock t.aad t.message).toBytes.take 8)
        = 8 * t.aad
      ∧ 8 * t.message < 2 ^ 64
      ∧ Bytes.ofBigEndian ((Gcm.lengthBlock t.aad t.message).toBytes.drop 8)
        = 8 * t.message := by
  have haad : 8 * t.aad < 2 ^ 64 := by
    have hle := h.aad_le
    unfold Mode.aadLimit at hle
    omega
  have hmessage : 8 * t.message < 2 ^ 64 := by
    have hle := h.message_le
    omega
  have hwidth (n : Nat) : (Bytes.bigEndian 8 n).length = 8 :=
    Bytes.length_bigEndian 8 n
  have hread {n : Nat} (hn : n < 2 ^ 64) :
    Bytes.ofBigEndian (Bytes.bigEndian 8 n) = n := by
    rw [Bytes.ofBigEndian_bigEndian]
    exact Nat.mod_eq_of_lt hn
  unfold Gcm.lengthBlock
  rw [Block.toBytes_ofBytes_of_length
    (by rw [List.length_append, hwidth, hwidth]),
    List.take_left' (hwidth _), List.drop_left' (hwidth _)]
  exact ⟨haad, hread haad, hmessage, hread hmessage⟩

/-- A stream goes by the limits of what it has counted. The clauses are
taken from the counts and, for the two length fields, from the forms of
the blocks. -/
theorem Counts.keepsLimits (h : Counts mode t s) : KeepsLimits mode t s where
  transform {nonce} hnonce direction piece := by
    rw [outcome_transform (h.transform hnonce direction piece)]
    unfold Tally.messageRefusal?
    split <;> rfl
  authenticate hmode hbegun data := by
    subst hmode
    cases h with
    | @gcm _ g h =>
      have hs := (h.authenticate data).map Stream.gcm fun _ h' => Counts.gcm h'
      rw [outcome_authenticate (s := .gcm g) hs]
      unfold Tally.aadRefusal?
      rw [hbegun, if_neg Bool.false_ne_true]
      split <;> rfl
  closing hmode := by
    subst hmode
    cases h with
    | @gcm _ g h =>
      refine ⟨g, Gcm.lengthBlock t.aad t.message, rfl, ?_, Counts.closing h⟩
      rw [← h.aadLength_eq, ← h.messageLength_eq]
      rfl
  opening hmode nonce hnonce := by
    subst hmode
    cases h with
    | ccm h =>
      cases h with
      | blank _ _ hnone => exact nomatch hnonce.symm.trans hnone
      | @carrying cipher tagLength _ m hn htakes hlength hle =>
        obtain rfl : nonce = m.nonce := Option.some.inj (hnonce.symm.trans hn)
        have hmax : m.nonce.length ≤ 12 := htakes.2
        refine ⟨_, m,
          Ccm.openingBlock tagLength m.nonce m.aad m.plaintext.length, _, rfl,
          rfl,
          rfl, rfl, Ccm.Message.mac_eq m cipher.encrypt tagLength, ?_⟩
        have hfront :
          (UInt8.ofNat (Ccm.openingFlags tagLength m.nonce m.aad)
            :: m.nonce).length
            = 1 + m.nonce.length := Nat.add_comm ..
        unfold Ccm.openingBlock
        rw [Ccm.toBytes_nonceBlock _ _ _ (by omega), List.drop_left' hfront,
          Bytes.ofBigEndian_bigEndian, hlength]
        refine Nat.mod_eq_of_lt (Nat.lt_of_le_of_lt hle ?_)
        show 2 ^ (8 * (15 - m.nonce.length)) - 1 < 256 ^ (15 - m.nonce.length)
        rw [Nat.pow_mul]
        exact Nat.sub_lt (Nat.pow_pos (by decide)) Nat.one_pos

theorem counts_ofKey {key : Bytes} {tagLength : Nat}
    (hs : ofKey mode key tagLength = .ok s) :
    Counts mode .zero s := by
  unfold ofKey at hs
  split at hs
  · cases hs
  · split at hs
    · cases hs
    · next cipher _ =>
      cases hs
      cases mode with
      | gcm => exact .gcm (.ofCipher cipher)
      | ccm => exact .ccm (.blank cipher tagLength rfl)

/-- **Every stream goes by the limits**, in both modes and after every
list of calls, refused ones among them: what has been granted since the
latest nonce is counted, in whatever pieces it came, and is what the
limits are held against. The fields in which the lengths are
authenticated never overflow. -/
theorem keepsLimits_of_ofKey (mode : Mode) (key : Bytes) (tagLength : Nat)
    (s : Stream) (hs : ofKey mode key tagLength = .ok s) (calls : List Call) :
    KeepsLimits mode (Tally.ofRecord (Aead.record Stream.step s calls))
      (s.run calls).2 := by
  rw [run_eq]
  exact ((counts_ofKey hs).after calls).keepsLimits

/-- The longest message under the longest nonce in counter with CBC-MAC
mode: it is granted in one piece, a byte more is not, and nothing more
is. -/
theorem keepsLimits_of_ofKey_at_limit :
    ∃ s, ofKey .ccm (Bytes.zeros 16) 4 = .ok s
      ∧ let nonce := Call.reset (Bytes.zeros 12)
        let longest := Call.transform .encrypt (Bytes.zeros (2 ^ 24 - 1))
        ((s.run [nonce]).2.step longest).1.outcome = .ok ()
          ∧ ((s.run [nonce, longest]).2.step
              (.transform .decrypt [1])).1.outcome
            = .error .messageTooLong
          ∧ ((s.run [nonce, longest]).2.step (.transform .decrypt [])).1.outcome
            = .ok () := by
  have hkey : (Bytes.zeros 16).length = 16 := rfl
  obtain ⟨cipher, s, -, hs, hkeyed⟩ := exists_ofKey .ccm 4 (.inl hkey) rfl
  refine ⟨s, hs, ?_⟩
  -- Of the piece only the length is ever looked at.
  have hlength : (Bytes.zeros (2 ^ 24 - 1)).length = 2 ^ 24 - 1 :=
    Bytes.length_zeros _
  generalize Bytes.zeros (2 ^ 24 - 1) = piece at hlength ⊢
  intro nonce longest
  have hlimit : Mode.ccm.messageLimit (Bytes.zeros 12).length = 2 ^ 24 - 1 :=
    rfl
  have htakes : Mode.ccm.TakesNonce (Bytes.zeros 12) := by decide
  have hreply : (s.step nonce).1 = ⟨.ok (), []⟩ := by
    rw [hkeyed.step_reset htakes]
  have hopened : Tally.ofRecord (Aead.record Stream.step s [nonce])
      = ⟨some (Bytes.zeros 12), 0, 0, false⟩ := by
    show Tally.zero.next ⟨nonce, (s.step nonce).1⟩ = _
    rw [hreply]
    rfl
  have hfirst := keepsLimits_of_ofKey .ccm (Bytes.zeros 16) 4 s hs [nonce]
  rw [hopened] at hfirst
  have hgranted : ((s.run [nonce]).2.step longest).1.outcome = .ok () := by
    rw [hfirst.transform rfl .encrypt piece, hlimit, hlength,
      if_neg (by decide)]
  have hspent : Tally.ofRecord (Aead.record Stream.step s [nonce, longest])
      = ⟨some (Bytes.zeros 12), 0, 2 ^ 24 - 1, true⟩ := by
    show (Tally.ofRecord (Aead.record Stream.step s [nonce])).next
      ⟨longest, ((s.run [nonce]).2.step longest).1⟩ = _
    rw [hopened, Tally.next_transform _ _ _ hgranted, hlength, Nat.zero_add]
  have hlast :=
    keepsLimits_of_ofKey .ccm (Bytes.zeros 16) 4 s hs [nonce, longest]
  rw [hspent] at hlast
  refine ⟨hgranted, ?_, ?_⟩
  · rw [hlast.transform rfl .decrypt [1], hlimit]
    rfl
  · rw [hlast.transform rfl .decrypt [], hlimit]
    rfl

end Stream

end Strongbox.Aead
