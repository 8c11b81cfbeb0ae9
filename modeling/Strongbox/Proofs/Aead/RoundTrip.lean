import Strongbox.Proofs.Aead.Session

/-!
# What is sealed is opened

One session seals a message and another opens it. The two have a key and
a nonce in common and nothing else: each has its own past, cuts the
message where it likes, transforms some pieces in place and copies
others, and gives the associated data in pieces of its own.

A `Delivery` is the way one side gives a message to its session, and
`Delivery.record_calls` what comes of it: all calls are granted, and the
session holds a transcript that only depends on what was delivered. Both
sides hold the same one, which is why their tags agree.

* `Holds.step_transforms` is a call of either form, and
  `Holds.record_transforms` a list of them: what is written, taken
  together, is the message under the keystream.
* `Holds.record_authenticate` is the same for associated data that comes
  after the nonce, in the mode that takes it.
* `Delivery.Carries` says what all the calls of one side amount to. It
  is the only thing that the two sides must have in common, up to the
  exchange of plaintext and ciphertext.
* `Holds.step_tag` and `Holds.step_verify_tag` are the last call of
  either side.

The induction is over the calls of one side only. The two sides never
occur in one statement before the end, where their transcripts are seen
to be the same.
-/

namespace Strongbox.Aead

/-- **A message comes out the same in pieces**: the second piece is
transformed from where the first one has brought the transcript, in
either direction. -/
theorem Transcript.crypt_append (mode : Mode) (cipher : Block → Block)
    (t : Transcript) (direction : Direction) (a b : Bytes) :
    t.crypt mode cipher (a ++ b) = t.crypt mode cipher a
      ++ (t.transform direction a (t.crypt mode cipher a)).crypt mode cipher
        b := by
  unfold crypt
  rw [Keystream.under_append, nonce_transform,
    length_plaintext_transform _ _ (Keystream.length_under ..)]

/-- Two transforms one way are one, of both pieces into both results. By
this a list of pieces is taken together. -/
theorem Transcript.transform_transform (t : Transcript) (direction : Direction)
    (a b a' b' : Bytes) :
    (t.transform direction a a').transform direction b b'
      = t.transform direction (a ++ b) (a' ++ b') := by
  cases direction <;> simp [transform]

namespace Session

/-- The bytes that a call gives to be transformed, and none if it is no
transform. -/
def Call.piece (call : Call) : Bytes := (call.task?.map Task.piece).getD []

/-- **A call that gives a piece of a message**, in either form, with
room for what comes out and not without any bytes. These are the calls
that the protocol does not object to in a message. -/
def Call.Transforms (direction : Direction) (call : Call) : Prop :=
  ∃ task, call.task? = some task ∧ task.direction = direction ∧ task.Fits

end Session

/-- What a granted transform has written: the beginning of its buffer,
as long as its piece. Behind it the buffer holds what it held. -/
def Exchange.written : Exchange Session.Call Error → Bytes
  | ⟨call, ⟨.ok _, buffer⟩⟩ =>
    (call.task?.map fun task => buffer.take task.length).getD []
  | _ => []

namespace Session

variable {cipher : BlockCipher} {tagLength : Nat} {mode : Mode} {t : Transcript}
  {s : Session}

/-! ## Runs of calls of one kind -/

/-- **A piece of the message** is granted within the limit, comes out
under the keystream from where the message stands, and the next one may
come. -/
theorem Holds.step_transforms (h : Holds cipher tagLength mode t s)
    (hphase : s.phase.takesTransform = true) {direction : Direction}
    {call : Call} (hc : call.Transforms direction)
    (hlimit : t.plaintext.length + call.piece.length
        ≤ mode.maxMessageLength t.nonce) :
    (Exchange.mk call (s.step call).1).succeeded = true
      ∧ (Exchange.mk call (s.step call).1).written
        = t.crypt mode cipher.encrypt call.piece
      ∧ Holds cipher tagLength mode
          (t.transform direction call.piece
              (t.crypt mode cipher.encrypt call.piece))
          (s.step call).2
      ∧ (s.step call).2.phase.takesTransform = true := by
  obtain ⟨task, htask, rfl, hfits⟩ := hc
  have hpiece : call.piece = task.piece := by rw [Call.piece, htask]; rfl
  have hlength : (t.crypt mode cipher.encrypt task.piece).length
    = task.length := by
    rw [Transcript.length_crypt, length_piece htask hfits]
  rw [hpiece] at hlimit ⊢
  obtain ⟨stream, hstart, hnew⟩ := h.transformStart_granted task.direction
    (task.buffer.drop task.length)
      (Transcript.messageRefusal?_eq_none_iff.mpr hlimit)
  rw [step_task s htask, objection?_eq_none_iff.mpr ⟨hphase, hfits⟩]
  show _ ∧ _ ∧ Holds cipher tagLength mode _ (s.transformStart _ _ _).2 ∧ _
  rw [hstart]
  refine ⟨rfl, ?_, hnew, rfl⟩
  show (call.task?.map fun task => (_ ++ _ : Bytes).take task.length).getD []
    = _
  rw [htask]
  exact List.take_left' hlength

/-- **A message in pieces** is answered as one. What remains open is
whether it has begun, since there may have been no piece at all. -/
theorem Holds.record_transforms (h : Holds cipher tagLength mode t s)
    (hphase : s.phase.takesTransform = true) {direction : Direction}
    {calls : List Call} (hc : ∀ call ∈ calls, call.Transforms direction)
    (hlimit : t.plaintext.length + (calls.flatMap Call.piece).length
        ≤ mode.maxMessageLength t.nonce) :
    (∀ e ∈ record step s calls, e.succeeded = true)
      ∧ (record step s calls).flatMap Exchange.written
        = t.crypt mode cipher.encrypt (calls.flatMap Call.piece)
      ∧ ∃ begun, Holds cipher tagLength mode
          { t.transform direction (calls.flatMap Call.piece)
              (t.crypt mode cipher.encrypt (calls.flatMap Call.piece))
                with begun }
          (after step s calls) := by
  induction calls generalizing t s with
  | nil =>
    refine ⟨nofun, rfl, t.begun, ?_⟩
    cases direction <;> simpa [Transcript.transform, Transcript.crypt] using h
  | cons call calls ih =>
    rw [List.flatMap_cons, List.length_append] at hlimit
    obtain ⟨hok, hwritten, hnext, hphase'⟩ :=
      h.step_transforms hphase (hc call (List.mem_cons_self ..)) (by omega)
    have hlimit' : (t.transform direction call.piece
          (t.crypt mode cipher.encrypt call.piece)).plaintext.length
            + (calls.flatMap Call.piece).length
        ≤ mode.maxMessageLength (t.transform direction call.piece
            (t.crypt mode cipher.encrypt call.piece)).nonce := by
      rw [Transcript.nonce_transform,
        Transcript.length_plaintext_transform _ _ (Transcript.length_crypt ..),
        Nat.add_assoc]
      exact hlimit
    obtain ⟨hoks, hrest, begun, hlast⟩ := ih hnext hphase'
      (fun c hm => hc c (List.mem_cons_of_mem _ hm)) hlimit'
    refine ⟨List.forall_mem_cons.mpr ⟨hok, hoks⟩, ?_, begun, ?_⟩
    · rw [record, List.flatMap_cons, List.flatMap_cons,
        t.crypt_append mode cipher.encrypt direction, hwritten, hrest]
    · rw [Transcript.transform_transform, ← t.crypt_append] at hlast
      exact hlast

/-- **Associated data in pieces** is associated data: every call is
granted as long as all of it stays within the limit, nothing is written,
and more may come. -/
theorem Holds.record_authenticate (h : Holds cipher tagLength .gcm t s)
    (hphase : s.phase = .reset) {pieces : List Bytes}
    (hlimit : t.aad.length + pieces.flatten.length ≤ Gcm.maxAadLength) :
    (∀ e ∈ record step s (pieces.map Call.authenticate), e.succeeded = true)
      ∧ (record step s (pieces.map Call.authenticate)).flatMap Exchange.written
        = []
      ∧ Holds cipher tagLength .gcm (t.authenticate pieces.flatten)
          (after step s (pieces.map Call.authenticate))
      ∧ (after step s (pieces.map Call.authenticate)).phase = .reset := by
  induction pieces generalizing t s with
  | nil =>
    refine ⟨nofun, rfl, ?_, hphase⟩
    simpa [Transcript.authenticate] using h
  | cons data pieces ih =>
    rw [List.flatten_cons, List.length_append] at hlimit
    have hgranted : t.aadRefusal? .gcm data.length = none :=
      Transcript.aadRefusal?_gcm_eq_none_iff.mpr ⟨h.unbegun hphase, by omega⟩
    obtain ⟨stream, hstep, hnext⟩ := h.step_authenticate_granted hphase hgranted
    have hlimit' : (t.aad ++ data).length + pieces.flatten.length
        ≤ Gcm.maxAadLength := by
      rw [List.length_append, Nat.add_assoc]
      exact hlimit
    obtain ⟨hoks, hrest, hlast, hphase'⟩ := ih hnext rfl hlimit'
    rw [List.map_cons, record, after_cons, hstep]
    refine ⟨List.forall_mem_cons.mpr ⟨rfl, hoks⟩, hrest, ?_, hphase'⟩
    simpa [Transcript.authenticate] using hlast

/-! ## Two sides -/

/-- **The way one side gives a message to its session.** Which pieces
are transformed in place, and how large the other buffers are, is in the
calls. -/
structure Delivery where
  /-- The associated data that comes with the nonce. -/
  aad : Bytes
  /-- The associated data that comes after it, call by call. -/
  more : List Bytes
  /-- The calls that give the message. -/
  pieces : List Call

/-- The calls of a delivery, up to the tag: the reset, the later
associated data, and the message. -/
def Delivery.calls (d : Delivery) (nonce : Bytes) : List Call :=
  .reset nonce d.aad :: (d.more.map Call.authenticate ++ d.pieces)

/-- **What a delivery carries**, and that it is one: associated data
after the reset is only given where the mode knows it, and every piece
has its bytes and room for them. -/
structure Delivery.Carries (mode : Mode) (direction : Direction)
    (aad message : Bytes) (d : Delivery) : Prop where
  /-- All the associated data. -/
  aad_eq : d.aad ++ d.more.flatten = aad
  /-- Where all of it has to come with the nonce. -/
  whole : mode = .ccm → d.more = []
  /-- The pieces are given one way. -/
  transforms : ∀ call ∈ d.pieces, call.Transforms direction
  /-- All the message. -/
  message_eq : d.pieces.flatMap Call.piece = message

/-- **What comes of a delivery**: every call is granted, the message is
transformed as one piece, and the session holds what was delivered. -/
theorem Delivery.record_calls (h : Stream.Keyed cipher tagLength mode s.stream)
    {nonce aad message : Bytes} {direction : Direction} {d : Delivery}
    (hd : d.Carries mode direction aad message) (hnonce : mode.TakesNonce nonce)
    (haad : mode.TakesAad aad.length)
    (hlimit : message.length ≤ mode.maxMessageLength nonce) :
    (∀ e ∈ record step s (d.calls nonce), e.succeeded = true)
      ∧ (record step s (d.calls nonce)).flatMap Exchange.written
        = Keystream.under (mode.keyByte cipher.encrypt nonce) 0 message
      ∧ ∃ begun, Holds cipher tagLength mode
          { (Transcript.start nonce |>.authenticate aad).transform direction
              message
              (Keystream.under (mode.keyByte cipher.encrypt nonce) 0 message)
                with begun }
          (after step s (d.calls nonce)) := by
  obtain ⟨rfl, hwhole, htransforms, rfl⟩ := hd
  have hopening : mode.openingRefusal? nonce d.aad.length = none := by
    rw [Mode.openingRefusal?,
      show mode.nonceRefusal? nonce = none from if_pos hnonce,
      Option.none_or]
    cases mode with
    | gcm =>
      refine Transcript.aadRefusal?_gcm_eq_none_iff.mpr ⟨rfl, ?_⟩
      have haad : (d.aad ++ d.more.flatten).length ≤ Gcm.maxAadLength := haad
      rw [List.length_append] at haad
      show 0 + _ ≤ _
      omega
    | ccm => rfl
  obtain ⟨stream, hreset, hopened⟩ := step_reset_granted h hopening
  -- After the associated data both modes are in the same place again.
  obtain ⟨hok₁, hwritten₁, hheld, hphase⟩ :
      (∀ e ∈ record step ⟨stream, .reset⟩ (d.more.map Call.authenticate),
          e.succeeded = true)
        ∧ (record step ⟨stream, .reset⟩ (d.more.map Call.authenticate)).flatMap
            Exchange.written = []
        ∧ Holds cipher tagLength mode
            ((Transcript.start nonce).authenticate (d.aad ++ d.more.flatten))
            (after step ⟨stream, .reset⟩ (d.more.map Call.authenticate))
        ∧ (after step ⟨stream, .reset⟩ (d.more.map Call.authenticate)).phase
          = .reset := by
    cases mode with
    | gcm =>
      refine hopened.record_authenticate rfl ?_
      rw [← List.length_append]
      exact haad
    | ccm =>
      rw [hwhole rfl, List.flatten_nil, List.append_nil]
      exact ⟨nofun, rfl, hopened, rfl⟩
  obtain ⟨hok₂, hwritten₂, hlast⟩ :=
    hheld.record_transforms (by rw [hphase]; rfl) htransforms
      (by show 0 + _ ≤ _; rw [Nat.zero_add]; exact hlimit)
  unfold calls
  rw [record, after_cons, hreset, record_append, after_append]
  refine ⟨?_, ?_, hlast⟩
  · exact List.forall_mem_cons.mpr
      ⟨rfl, List.forall_mem_append.mpr ⟨hok₁, hok₂⟩⟩
  · rw [List.flatMap_cons, List.flatMap_append, hwritten₁, hwritten₂]
    rfl

/-! ## The tags -/

/-- No tag is longer than a block, whichever mode it is asked for in. So
a tag that is cut off from a block has the length that was asked for. -/
theorem length_le_of_takesTag
    (htag : Stream.acceptsTagLength mode tagLength = true) {n : Nat}
    (hn : mode.TakesTag tagLength n) : n ≤ 16 := by
  cases mode with
  | gcm => exact hn.2
  | ccm =>
    have hall : ∀ n ∈ Ccm.tagLengths, n ≤ 16 := by decide
    obtain rfl : n = tagLength := hn
    exact hall n (List.contains_iff_mem.mp htag)

/-- A tag of a length that the mode takes is written over the buffer,
which closes the message. -/
theorem Holds.step_tag (h : Holds cipher tagLength mode t s) {buffer : Bytes}
    (hn : mode.TakesTag tagLength buffer.length) :
    s.step (.tag buffer)
      = (⟨.ok (),
          (t.tag mode cipher.encrypt tagLength).toBytes.take buffer.length⟩,
          { s with phase := .tagExtracted }) := by
  show s.tag buffer.length = _
  rw [h.tag_eq, if_pos hn]

/-- **The tag of a message is verified**, in every length that it can be
asked for. -/
theorem Holds.step_verify_tag (h : Holds cipher tagLength mode t s)
    (htag : Stream.acceptsTagLength mode tagLength = true) {n : Nat}
    (hn : mode.TakesTag tagLength n) :
    (s.step (.verify ((t.tag mode cipher.encrypt tagLength).toBytes.take n))).1
      = ⟨.ok (), []⟩ := by
  have hlength : ((t.tag mode cipher.encrypt tagLength).toBytes.take n).length
    = n := by
    rw [List.length_take, Block.length_toBytes]
    exact Nat.min_eq_left (length_le_of_takesTag htag hn)
  rw [step_verify, hlength, h.tag_eq, if_pos hn]
  simp only [if_pos]

/-- **What one session seals another opens**, with a past, a cutting of
the message and of the associated data, and forms of the transforms of
its own: all calls are granted, the message comes out as it went in,
both tags are the same, and the tag is verified – at once as well as
after it has been asked for. -/
theorem receiver_opens_delivery (mode : Mode) (key : Bytes)
    (hkey : key.length = 16 ∨ key.length = 24 ∨ key.length = 32)
    (tagLength : Nat) (htag : Stream.acceptsTagLength mode tagLength = true)
    (nonce : Bytes) (hnonce : mode.TakesNonce nonce) (aad : Bytes)
    (haad : mode.TakesAad aad.length) (plaintext : Bytes)
    (hlimit : plaintext.length ≤ mode.maxMessageLength nonce) :
    ∃ fresh, ofKey mode key tagLength = .ok fresh
      ∧ ∀ (past₁ past₂ : List Call) (sent : Delivery),
        sent.Carries mode .encrypt aad plaintext →
        let sender := (fresh.run past₁).2
        let sending := record step sender (sent.calls nonce)
        let ciphertext := sending.flatMap Exchange.written
        (∀ e ∈ sending, e.succeeded = true)
        ∧ ciphertext.length = plaintext.length
        ∧ ∀ received : Delivery, received.Carries mode .decrypt aad ciphertext →
          let receiver := (fresh.run past₂).2
          let receiving := record step receiver (received.calls nonce)
          (∀ e ∈ receiving, e.succeeded = true)
          ∧ receiving.flatMap Exchange.written = plaintext
          ∧ ∀ buffer₁ buffer₂ : Bytes, mode.TakesTag tagLength buffer₁.length →
            buffer₂.length = buffer₁.length →
            let sealed := (sender.run (sent.calls nonce)).2
            let opened := (receiver.run (received.calls nonce)).2
            ∃ tag, (sealed.step (.tag buffer₁)).1 = ⟨.ok (), tag⟩
              ∧ (opened.step (.tag buffer₂)).1 = ⟨.ok (), tag⟩
              ∧ (opened.step (.verify tag)).1 = ⟨.ok (), []⟩
              ∧ ((opened.step (.tag buffer₂)).2.step (.verify tag)).1
                = ⟨.ok (), []⟩ := by
  obtain ⟨cipher, fresh, hfresh, hkeyed⟩ :=
    exists_ofKey mode tagLength hkey htag
  refine ⟨fresh, hfresh, fun past₁ past₂ sent hsent => ?_⟩
  simp only [run_eq]
  obtain ⟨hok₁, hwritten₁, begun₁, hsealed⟩ :=
    Delivery.record_calls (keyed_after hkeyed past₁) hsent hnonce haad hlimit
  rw [hwritten₁]
  refine ⟨hok₁, Keystream.length_under .., fun received hreceived => ?_⟩
  obtain ⟨hok₂, hwritten₂, begun₂, hopened⟩ :=
    Delivery.record_calls (keyed_after hkeyed past₂) hreceived hnonce haad
      (by rw [Keystream.length_under]; exact hlimit)
  rw [Keystream.under_under] at hwritten₂ hopened
  refine ⟨hok₂, hwritten₂, fun buffer₁ buffer₂ hn hbuffer => ?_⟩
  have hn' : mode.TakesTag tagLength buffer₂.length := hbuffer ▸ hn
  refine ⟨_, by rw [hsealed.step_tag hn], ?_, ?_, ?_⟩
  · rw [hopened.step_tag hn', hbuffer]
    cases mode <;> rfl
  · refine Eq.trans ?_ (hopened.step_verify_tag htag hn)
    cases mode <;> rfl
  · rw [hopened.step_tag hn']
    refine Eq.trans ?_ (hopened.tagExtracted.step_verify_tag htag hn)
    cases mode <;> rfl

/-- Three bytes, copied and in place, opened again in one piece; the
associated data is cut on one side only. Both deliveries carry what the
general theorem asks for. -/
theorem receiver_opens_delivery_in_one_piece :
    ∃ fresh, ofKey .gcm (Bytes.zeros 16) 16 = .ok fresh
      ∧ let sent : Delivery := ⟨[2], [[3], []],
          [.transform .encrypt [4, 5] (Bytes.zeros 3),
            .transformInPlace .encrypt [6, 7] 1]⟩
        let ciphertext :=
          (record step fresh (sent.calls [1])).flatMap Exchange.written
        let received : Delivery :=
          ⟨[2, 3], [],
            [.transformInPlace .decrypt ciphertext ciphertext.length]⟩
        (record step fresh (received.calls [1])).flatMap Exchange.written
          = [4, 5, 6] := by
  obtain ⟨fresh, hfresh, h⟩ :=
    receiver_opens_delivery .gcm (Bytes.zeros 16) (by decide) 16 rfl
      [1] (by decide) [2, 3] (by decide) [4, 5, 6] (by decide)
  refine ⟨fresh, hfresh, ?_⟩
  intro sent ciphertext received
  have hsent : sent.Carries .gcm .encrypt [2, 3] [4, 5, 6] := by
    refine ⟨rfl, nofun, fun call hcall => ?_, rfl⟩
    obtain rfl | rfl : call = _ ∨ call = _ := by simpa [sent] using hcall
    · exact ⟨_, rfl, rfl, by decide⟩
    · exact ⟨_, rfl, rfl, by decide⟩
  obtain ⟨-, hlength, hreceiver⟩ := h [] [] sent hsent
  have hreceived : received.Carries .gcm .decrypt [2, 3] ciphertext := by
    refine ⟨rfl, nofun, fun call hcall => ?_, ?_⟩
    · obtain rfl : call = _ := by simpa [received] using hcall
      have hpositive : 0 < ciphertext.length := hlength ▸ (by decide)
      exact ⟨_, rfl, rfl, hpositive, Nat.le_refl _⟩
    · show ciphertext.take ciphertext.length ++ [] = ciphertext
      rw [List.take_length, List.append_nil]
  exact (hreceiver received hreceived).2.1

end Session

end Strongbox.Aead
