import Strongbox.Aead.Packed
import Strongbox.Proofs.Aead.Ccm.Packed
import Strongbox.Proofs.Aead.Gcm.Packed
import Strongbox.Proofs.Aead.Session

/-!
# Streams and sessions in memory

A history of calls to a `Packed` stream, or to a `PackedSession`, comes
to its end without a fault and is answered as the stream, or the
session, that lies in the memory answers it (`never_faults`). The work
has been done in the two modes; what is left here is to see that every
call finds what its mode asks for.

In Galois/counter mode that is only that the slices are not beyond all
measure. In counter with CBC-MAC mode the associated data is kept, so
that the sum of what has been given since the nonce must not be either.
A stream does not look at that sum and its caller must
(`Stream.Call.aadSince`, with `Stream.kept` as what is there of it); a
session is given associated data in this mode only together with a
nonce, so that for it one slice is the whole sum.

What a stream is refused leaves its memory as it was. Of a session that
is not said, since a refused reset or transform moves it to another
phase.

Only that a call comes to its end depends on sizes. One that has come to
its end is answered rightly in any case (`Stream.Packs.ensures_step`).

* `Packs` relates a memory to the stream or session in it. One stream
  may lie in several memories, since what is left over from earlier work
  differs between them.
* `Packs.step` is a call to a stream, `Packs.run` a history of them; for
  sessions they have the same names.
* `Packs.ensures_step` drops the bounds and keeps the answers, for those
  who are given a history that has come to its end.
-/

namespace Strongbox.Aead

open Checked

namespace Stream

/-! ## Streams in memory -/

/-- **Which streams lie in which memory.** It is a relation, because the
memory holds more than the stream: what has been worked out and is no
longer wanted. -/
inductive Packs : Packed → Stream → Prop
  /-- In Galois/counter mode the memory is the one that the stream has. -/
  | gcm {g : Gcm} (h : g.Sound) : Packs (.gcm g.pack) (.gcm g)
  /-- In counter with CBC-MAC mode it is one of several. -/
  | ccm {p : Ccm.Packed} {c : Ccm} (h : Ccm.Packs p c) : Packs (.ccm p) (.ccm c)

/-- How much associated data a stream keeps, which in counter with
CBC-MAC mode is all of it and in the other mode none. -/
def kept : Stream → Nat
  | gcm _ => 0
  | ccm c => c.kept

/-- The slices that a call hands over, each of which has some length of
its own. -/
def Call.slices : Call → List Bytes
  | reset nonce => [nonce]
  | authenticate data => [data]
  | transform _ buffer | tag buffer => [buffer]

/-- **The associated data given since a message was begun**, with a
call. A nonce that is refused begins none. -/
def Call.aadSince (mode : Mode) (given : Nat) : Call → Nat
  | reset nonce => if mode.TakesNonce nonce then 0 else given
  | authenticate data => given + data.length
  | transform _ _ | tag _ => given

variable {cipher : BlockCipher} {tagLength : Nat} {mode : Mode} {p : Packed}
  {s : Stream}

/-! ### One call -/

/-- An answer of one mode is an answer of the stream, with the memory
put under the mode's constructor. -/
theorem answered_eq {σ : Type} {x : Checked (Reply StreamError × σ)}
    {reply : Reply StreamError} {q : σ} (h : x = .ok (reply, q))
    (wrap : σ → Packed) :
    Packed.answered wrap x = .ok (reply, wrap q) :=
  congrArg (Packed.answered wrap) h

/-- An answer in counter with CBC-MAC mode, and the memory after it, is
an answer of the stream with such a memory. -/
theorem exists_answered_ccm {x : Checked (Reply StreamError × Ccm.Packed)}
    {reply : Reply StreamError} {c : Ccm}
    (h : ∃ q, x = .ok (reply, q) ∧ Ccm.Packs q c) :
    ∃ p, Packed.answered .ccm x = .ok (reply, p) ∧ Packs p (.ccm c) := by
  obtain ⟨q, hx, hpacks⟩ := h
  exact ⟨_, answered_eq hx .ccm, .ccm hpacks⟩

/-- **A nonce in memory** is taken or refused as by the stream. Only
Galois/counter mode, which multiplies its length, asks for a bound on
it. -/
theorem Packs.reset (h : Packs p s) {nonce : Bytes}
    (hnonce : p.mode = .gcm → nonce.length < 2 ^ 61) :
    match s.reset nonce with
    | .ok s' =>
      ∃ p', p.step (.reset nonce) = .ok (⟨.ok (), []⟩, p') ∧ Packs p' s'
    | .error e => p.step (.reset nonce) = .ok (⟨.error e, []⟩, p) := by
  cases h with
  | @gcm g h =>
    have hstep := answered_eq (Gcm.pack_reset g (hnonce rfl)) .gcm
    dsimp only [Stream.reset]
    cases hg : g.reset nonce <;> rw [hg] at hstep
    case error e => exact hstep
    case ok g' => exact ⟨_, hstep, .gcm (Gcm.sound_of_reset hg)⟩
  | @ccm _ c h =>
    have hstep := h.reset nonce
    dsimp only [Stream.reset]
    cases hc : c.reset nonce <;> rw [hc] at hstep
    case error e => exact answered_eq hstep .ccm
    case ok c' => exact exists_answered_ccm hstep

/-- **Associated data in memory**, as long as there is not too much of
it, is taken in or refused as by the stream. What counts in counter with
CBC-MAC mode is all that is kept. -/
theorem Packs.authenticate (h : Packs p s) {data : Bytes}
    (hroom : p.mode = .ccm → s.kept + data.length < 2 ^ 61) :
    match s.authenticate data with
    | .ok s' =>
      ∃ p', p.step (.authenticate data) = .ok (⟨.ok (), []⟩, p') ∧ Packs p' s'
    | .error e => p.step (.authenticate data) = .ok (⟨.error e, []⟩, p) := by
  cases h with
  | @gcm g h =>
    have hstep := answered_eq (h.pack_authenticate data) .gcm
    dsimp only [Stream.authenticate]
    cases hg : g.authenticate data <;> rw [hg] at hstep
    case error e => exact hstep
    case ok g' => exact ⟨_, hstep, .gcm (h.of_authenticate hg)⟩
  | @ccm _ c h =>
    have hstep := h.authenticate (hroom rfl)
    dsimp only [Stream.authenticate]
    cases hc : c.authenticate data <;> rw [hc] at hstep
    case error e => exact answered_eq hstep .ccm
    case ok c' => exact exists_answered_ccm hstep

/-- **A transform in memory** is granted or refused as by the stream,
without any bound: the limit on messages is reached before a word is. -/
theorem Packs.transform (h : Packs p s) (direction : Direction)
    (buffer : Bytes) :
    match s.transform direction buffer with
    | .ok (result, s') =>
      ∃ p', p.step (.transform direction buffer) = .ok (⟨.ok (), result⟩, p')
        ∧ Packs p' s'
    | .error e =>
      p.step (.transform direction buffer) = .ok (⟨.error e, buffer⟩, p) := by
  cases h with
  | @gcm g h =>
    have hstep := answered_eq (h.pack_transform direction buffer) .gcm
    dsimp only [Stream.transform]
    cases hg : g.transform direction buffer <;> rw [hg] at hstep
    case error e => exact hstep
    case ok out => exact ⟨_, hstep, .gcm (h.of_transform hg)⟩
  | @ccm _ c h =>
    have hstep := h.transform direction buffer
    dsimp only [Stream.transform]
    cases hc : c.transform direction buffer <;> rw [hc] at hstep
    case error e => exact answered_eq hstep .ccm
    case ok out => exact exists_answered_ccm hstep

/-- **A tag in memory** is the stream's, and leaves a memory in which
the same stream lies, though in one mode it has been worked in. -/
theorem Packs.tag (h : Packs p s) (buffer : Bytes) :
    match s.tag buffer.length with
    | .ok tag =>
      ∃ p', p.step (.tag buffer) = .ok (⟨.ok (), tag⟩, p') ∧ Packs p' s
    | .error e => p.step (.tag buffer) = .ok (⟨.error e, buffer⟩, p) := by
  cases h with
  | @gcm g h =>
    have hstep := answered_eq (h.pack_tag buffer) .gcm
    dsimp only [Stream.tag]
    cases hg : g.tag buffer.length <;> rw [hg] at hstep
    case error e => exact hstep
    case ok tag => exact ⟨_, hstep, .gcm h⟩
  | @ccm _ c h =>
    have hstep := h.tag buffer
    dsimp only [Stream.tag]
    cases hc : c.tag buffer.length <;> rw [hc] at hstep
    case error e => exact answered_eq hstep .ccm
    case ok tag => exact exists_answered_ccm hstep

/-- **A call is answered in memory as by the stream.** The two bounds
are only asked of the calls and of the modes that need them. -/
theorem Packs.step (h : Packs p s) (call : Call)
    (hnonce : ∀ nonce, call = .reset nonce → p.mode = .gcm
        → nonce.length < 2 ^ 61)
    (hroom : ∀ data, call = .authenticate data → p.mode = .ccm
        → s.kept + data.length < 2 ^ 61) :
    ∃ p', p.step call = .ok ((s.step call).1, p')
      ∧ Packs p' (s.step call).2 := by
  unfold Stream.step
  cases call with
  | reset nonce =>
    have hstep := h.reset (hnonce nonce rfl)
    dsimp only
    cases hs : s.reset nonce <;> rw [hs] at hstep
    case error e => exact ⟨p, hstep, h⟩
    case ok s' => exact hstep
  | authenticate data =>
    have hstep := h.authenticate (hroom data rfl)
    dsimp only
    cases hs : s.authenticate data <;> rw [hs] at hstep
    case error e => exact ⟨p, hstep, h⟩
    case ok s' => exact hstep
  | transform direction buffer =>
    have hstep := h.transform direction buffer
    dsimp only
    cases hs : s.transform direction buffer <;> rw [hs] at hstep
    case error e => exact ⟨p, hstep, h⟩
    case ok out => exact hstep
  | tag buffer =>
    have hstep := h.tag buffer
    dsimp only
    cases hs : s.tag buffer.length <;> rw [hs] at hstep
    case error e => exact ⟨p, hstep, h⟩
    case ok tag => exact hstep

/-- **A call that comes to its end** is answered as by the stream, of
whatever size its slices are. If one is beyond its bound, either the
call faults or the size has not mattered. -/
theorem Packs.ensures_step (h : Packs p s) (call : Call) :
    Ensures (fun out => out.1 = (s.step call).1 ∧ Packs out.2 (s.step call).2)
      (p.step call) := by
  -- Only a nonce in one mode and associated data in the other can be too long
  -- for it.
  by_cases hnonce : ∀ nonce,
  call = .reset nonce → p.mode = .gcm → nonce.length < 2 ^ 61
  · by_cases hroom : ∀ data, call = .authenticate data → p.mode = .ccm →
        s.kept + data.length < 2 ^ 61
    · obtain ⟨p', hstep, hpacks⟩ := h.step call hnonce hroom
      exact .of_eq hstep ⟨rfl, hpacks⟩
    · push Not at hroom
      obtain ⟨data, rfl, hmode, -⟩ := hroom
      cases h with
      | gcm => cases hmode
      | @ccm p c h =>
        refine (h.ensures_authenticate data).map fun out hout => ?_
        unfold Stream.step Stream.authenticate
        dsimp only
        cases hc : c.authenticate data <;> rw [hc] at hout
        case error e => exact hout ▸ ⟨rfl, .ccm h⟩
        case ok c' => exact ⟨hout.1, .ccm hout.2⟩
  · push Not at hnonce
    obtain ⟨nonce, rfl, hmode, hlong⟩ := hnonce
    cases h with
    | @gcm g h =>
      have hstep : Packed.step (.gcm g.pack) (.reset nonce)
        = .error .tooLarge :=
        congrArg (Packed.answered .gcm) (Gcm.pack_reset_tooLarge g hlong)
      rw [hstep]
      exact nofun
    | ccm => cases hmode

/-! ### What is kept -/

/-- After a nonce nothing is kept, whatever was kept before it. The sum
that the caller has to bound begins here. -/
theorem kept_opened (nonce : Bytes) :
    (opened cipher tagLength nonce mode).kept = 0 := by
  cases mode <;> rfl

/-- Associated data that is taken in adds no more than its length to
what is kept. -/
theorem kept_of_authenticate {data : Bytes} {s' : Stream}
    (hs : s.authenticate data = .ok s') :
    s'.kept ≤ s.kept + data.length := by
  cases s with
  | gcm g =>
    obtain ⟨g', -, rfl⟩ := exists_of_map_eq_ok hs
    exact Nat.zero_le _
  | ccm c =>
    obtain ⟨c', hc, rfl⟩ := exists_of_map_eq_ok hs
    exact Nat.le_of_eq (Ccm.kept_of_authenticate hc)

theorem kept_of_transform {direction : Direction} {piece : Bytes}
    {out : Bytes × Stream} (hs : s.transform direction piece = .ok out) :
    out.2.kept = s.kept := by
  cases s with
  | gcm g =>
    obtain ⟨out', -, rfl⟩ := exists_of_map_eq_ok hs
    rfl
  | ccm c =>
    obtain ⟨out', hc, rfl⟩ := exists_of_map_eq_ok hs
    exact Ccm.kept_of_transform hc

/-- **No more is kept than has been given** since a message was begun.
What is refused is not kept, so that it may be less. -/
theorem Keyed.kept_step (h : Keyed cipher tagLength mode s) (call : Call) :
    (s.step call).2.kept ≤ call.aadSince mode s.kept := by
  unfold Stream.step Call.aadSince
  cases call with
  | reset nonce =>
    have hreset := h.reset nonce
    dsimp only
    by_cases hn : mode.TakesNonce nonce
    · rw [show mode.nonceRefusal? nonce = none from if_pos hn] at hreset
      obtain ⟨s', hs, rfl⟩ := hreset
      rw [if_pos hn, hs]
      exact Nat.le_of_eq (kept_opened nonce)
    · rw [show mode.nonceRefusal? nonce = some _ from if_neg hn] at hreset
      rw [if_neg hn, show s.reset nonce = .error _ from hreset]
  | authenticate data =>
    dsimp only
    cases hs : s.authenticate data with
    | error e => exact Nat.le_add_right s.kept data.length
    | ok s' => exact kept_of_authenticate hs
  | transform direction buffer =>
    dsimp only
    cases hs : s.transform direction buffer with
    | error e => exact Nat.le_refl _
    | ok out => exact Nat.le_of_eq (kept_of_transform hs)
  | tag buffer =>
    dsimp only
    cases s.tag buffer.length <;> exact Nat.le_refl _

theorem length_of_transform {direction : Direction} {piece : Bytes}
    {out : Bytes × Stream} (hs : s.transform direction piece = .ok out) :
    out.1.length = piece.length := by
  cases s with
  | gcm g =>
    obtain ⟨out', hg, rfl⟩ := exists_of_map_eq_ok hs
    exact Gcm.length_of_transform hg
  | ccm c =>
    obtain ⟨out', hc, rfl⟩ := exists_of_map_eq_ok hs
    exact Ccm.length_of_transform hc

/-- In Galois/counter mode nothing is kept: associated data is hashed as
it comes. -/
theorem kept_eq_zero (h : Keyed cipher tagLength mode s) (hmode : mode ≠ .ccm) :
    s.kept = 0 := by
  cases h with
  | gcm => rfl
  | ccm => exact absurd rfl hmode

/-- More that was given before is more that is given after, so that a
bound may be followed through a history in place of the sum itself. -/
theorem aadSince_le {given given' : Nat} (h : given ≤ given') (call : Call) :
    call.aadSince mode given ≤ call.aadSince mode given' := by
  cases call with
  | reset nonce =>
    dsimp only [Call.aadSince]
    split
    · exact Nat.le_refl 0
    · exact h
  | authenticate data => exact Nat.add_le_add_right h data.length
  | transform _ _ | tag _ => exact h

/-! ### A history -/

/-- **A history answered in memory** as by the stream. The induction is
over the calls, with the associated data given so far as an upper bound
of what the stream keeps. -/
theorem Packs.run (h : Packs p s) (hkeyed : Keyed cipher tagLength mode s)
    {given : Nat} (hkept : s.kept ≤ given) (calls : List Call)
    (hsmall : ∀ call ∈ calls, ∀ slice ∈ call.slices, slice.length < 2 ^ 61)
    (haad : ∀ n ≤ calls.length,
        (calls.take n).foldl (Call.aadSince mode) given < 2 ^ 61) :
    ∃ p', p.run calls = .ok ((s.run calls).1, p') := by
  induction calls generalizing p s given with
  | nil => exact ⟨p, rfl⟩
  | cons call calls ih =>
    have hone : call.aadSince mode given < 2 ^ 61 :=
      haad 1 (Nat.succ_le_succ (Nat.zero_le _))
    have hnonce (nonce : Bytes) (hcall : call = .reset nonce) :
        nonce.length < 2 ^ 61 :=
      hsmall call (List.mem_cons_self ..) nonce
        (hcall ▸ List.mem_singleton_self nonce)
    have hroom (data : Bytes) (hcall : call = .authenticate data) :
        s.kept + data.length < 2 ^ 61 := by
      subst hcall
      exact Nat.lt_of_le_of_lt (Nat.add_le_add_right hkept data.length) hone
    obtain ⟨p₁, hstep, hpacks⟩ := h.step call
      (fun nonce hcall _ => hnonce nonce hcall)
      (fun data hcall _ => hroom data hcall)
    have hnext : (s.step call).2.kept ≤ call.aadSince mode given :=
      Nat.le_trans (hkeyed.kept_step call) (aadSince_le hkept call)
    obtain ⟨p', hrun⟩ := ih hpacks (hkeyed.step call) hnext
      (fun call' hmem => hsmall call' (List.mem_cons_of_mem _ hmem))
      (fun n hn => haad (n + 1) (Nat.succ_le_succ hn))
    refine ⟨p', ?_⟩
    unfold Packed.run Stream.run
    exact (bind_eq hstep _).trans (bind_eq hrun _)

/-- **A stream laid out under a cipher**, where the tag length is one of
the mode. -/
theorem exists_packs_ofCipher {key : Bytes}
    (hcipher : Aes.blockCipher? key = some cipher)
    (htag : acceptsTagLength mode tagLength = true) :
    ∃ packed, Packed.ofKey mode key tagLength = .ok (.ok packed)
      ∧ Packs packed (ofCipher mode cipher tagLength) := by
  unfold Packed.ofKey
  rw [htag, hcipher]
  cases mode with
  | gcm => exact ⟨_, bind_eq (Gcm.pack_ofCipher cipher) _,
    .gcm (.ofCipher cipher)⟩
  | ccm =>
    have hmem : tagLength ∈ Ccm.tagLengths := List.contains_iff_mem.mp htag
    exact ⟨_, rfl, .ccm (Ccm.packs_ofCipher cipher hmem)⟩

/-- **A stream made under a key in memory** is one made under the key,
with nothing kept yet. No key or tag length that fits makes it fault. -/
theorem exists_packs_ofKey (mode : Mode) (tagLength : Nat) {key : Bytes}
    (hkey : key.length = 16 ∨ key.length = 24 ∨ key.length = 32)
    (htag : acceptsTagLength mode tagLength = true) :
    ∃ cipher packed stream, Packed.ofKey mode key tagLength = .ok (.ok packed)
      ∧ ofKey mode key tagLength = .ok stream ∧ Packs packed stream
      ∧ Keyed cipher tagLength mode stream ∧ stream.kept = 0 := by
  obtain ⟨cipher, hcipher⟩ := exists_blockCipher hkey
  obtain ⟨packed, hpacked, hpacks⟩ := exists_packs_ofCipher hcipher htag
  refine ⟨cipher, packed, ofCipher mode cipher tagLength, hpacked, ?_, hpacks,
    Keyed.ofCipher mode cipher tagLength, ?_⟩
  · unfold ofKey
    rw [htag, hcipher]
    rfl
  · cases mode <;> rfl

end Stream

namespace Session

/-! ## Sessions in memory -/

/-- The slices that a call hands over: for a transform into another
buffer both of its buffers. -/
def Call.slices : Call → List Bytes
  | reset nonce aad => [nonce, aad]
  | authenticate data => [data]
  | transform _ input output => [input, output]
  | transformInPlace _ buffer _ => [buffer]
  | tag buffer => [buffer]
  | verify expected => [expected]

/-- **Which sessions lie in which memory.** The session in memory keeps
its mode and its tag length beside the stream; the other one asks the
stream for them. -/
structure Packs (cipher : BlockCipher) (tagLength : Nat) (mode : Mode)
    (p : PackedSession) (s : Session) : Prop where
  /-- The session in memory is of this mode. -/
  mode_eq : p.mode = mode
  /-- Where the mode fixes a tag length, it is this one. -/
  tagLength_eq : mode = .ccm → p.tagLength = tagLength
  /-- Both stand in the same phase. -/
  phase_eq : p.phase = s.phase
  /-- The stream lies in the memory of the session. -/
  stream : Stream.Packs p.stream s.stream
  /-- The session is under a key. -/
  keyed : Stream.Keyed cipher tagLength mode s.stream

variable {cipher : BlockCipher} {tagLength : Nat} {mode : Mode}
  {p : PackedSession} {s : Session}

/-- After a call to the stream only that and the phase have changed: the
memory of the session is the one before with a new stream and phase. -/
theorem Packs.next (h : Packs cipher tagLength mode p s) {stream : Packed}
    {stream' : Stream} (hstream : Stream.Packs stream stream')
    (hkeyed : Stream.Keyed cipher tagLength mode stream') (phase : Phase) :
    Packs cipher tagLength mode { p with stream, phase } ⟨stream', phase⟩ :=
  ⟨h.mode_eq, h.tagLength_eq, rfl, hstream, hkeyed⟩

/-- Associated data that comes in one slice is not too long, in either
mode, when nothing has been given before it. -/
theorem aadRefusal?_start (mode : Mode) (nonce : Bytes) {n : Nat}
    (h : n < 2 ^ 61) :
    (Transcript.start nonce).aadRefusal? mode n = none := by
  cases mode with
  | gcm =>
    refine Transcript.aadRefusal?_gcm_eq_none_iff.mpr ⟨rfl, ?_⟩
    show 0 + n ≤ Gcm.maxAadLength
    unfold Gcm.maxAadLength
    omega
  | ccm => rfl

/-- **The associated data that comes with a nonce** is taken in, by the
stream and in memory, because nothing is there yet that it could add up
with. -/
theorem exists_authenticate_opened {stream : Packed} {nonce aad : Bytes}
    (h : Stream.Packs stream (Stream.opened cipher tagLength nonce mode))
    (hn : mode.TakesNonce nonce) (haad : aad.length < 2 ^ 61) :
    ∃ given stream',
      (Stream.opened cipher tagLength nonce mode).authenticate aad = .ok given
        ∧ stream.step (.authenticate aad) = .ok (⟨.ok (), []⟩, stream')
        ∧ Stream.Packs stream' given
          ∧ Stream.Keyed cipher tagLength mode given := by
  have hopened : Stream.Holds cipher tagLength mode _ _ :=
    Stream.Holds.opened hn
  have hgiven := hopened.authenticate aad
  rw [aadRefusal?_start mode nonce haad] at hgiven
  obtain ⟨given, hs, hgiven⟩ := hgiven
  have hroom : (Stream.opened cipher tagLength nonce mode).kept + aad.length
    < 2 ^ 61 := by
    rwa [Stream.kept_opened, Nat.zero_add]
  have hstep := h.authenticate fun _ => hroom
  rw [hs] at hstep
  obtain ⟨stream', hstep, hpacks⟩ := hstep
  exact ⟨given, stream', hs, hstep, hpacks, hgiven.keyed⟩

/-- **A message begun in memory with its associated data.** What comes
in one slice is never refused for its length, so that whatever is
refused is refused with the nonce. -/
theorem startMessage_packs {stream : Packed} {stream' : Stream}
    (h : Stream.Packs stream stream')
    (hkeyed : Stream.Keyed cipher tagLength mode stream') {nonce aad : Bytes}
    (hnonce : nonce.length < 2 ^ 61) (haad : aad.length < 2 ^ 61) :
    match startMessage stream' nonce aad with
    | .ok opened =>
      ∃ p', PackedSession.startMessage stream mode nonce aad = .ok (.ok (), p')
        ∧ Stream.Packs p' opened ∧ Stream.Keyed cipher tagLength mode opened
    | .error e =>
      PackedSession.startMessage stream mode nonce aad
        = .ok (.error e, stream) := by
  have hstep := h.reset fun _ => hnonce
  have hreset := hkeyed.reset nonce
  unfold startMessage PackedSession.startMessage
  by_cases hn : mode.TakesNonce nonce
  · rw [show mode.nonceRefusal? nonce = none from if_pos hn] at hreset
    obtain ⟨opened, hs, rfl⟩ := hreset
    rw [hs] at hstep ⊢
    obtain ⟨p₁, hp₁, hpacks₁⟩ := hstep
    have hopened :
      Stream.Keyed cipher tagLength mode
        (Stream.opened cipher tagLength nonce mode) :=
      (Stream.Holds.opened hn).keyed
    show match (if (Stream.opened cipher tagLength nonce mode).mode = .ccm
        ∨ !aad.isEmpty
      then (Stream.opened cipher tagLength nonce mode).authenticate aad
        else .ok _) with
      | .ok _ => _
      | .error _ => _
    rw [hopened.mode_eq]
    by_cases hgive : mode = .ccm ∨ !aad.isEmpty
    · obtain ⟨given, p₂, hs', hp₂, hpacks₂, hgiven⟩ :=
        exists_authenticate_opened hpacks₁ hn haad
      rw [if_pos hgive, hs']
      refine ⟨p₂, (bind_eq hp₁ _).trans ?_, hpacks₂, hgiven⟩
      exact (if_pos hgive).trans (bind_eq hp₂ _)
    · rw [if_neg hgive]
      exact ⟨p₁, (bind_eq hp₁ _).trans (if_neg hgive), hpacks₁, hopened⟩
  · rw [show mode.nonceRefusal? nonce
      = some (.nonceLength nonce.length) from if_neg hn] at hreset
    rw [show stream'.reset nonce
      = .error (.nonceLength nonce.length) from hreset] at hstep ⊢
    exact bind_eq hstep _

/-- **A reset answered in memory** as by the session. A refusal faults
the session in both, and the stream keeps what it had. -/
theorem Packs.reset (h : Packs cipher tagLength mode p s) {nonce aad : Bytes}
    (hnonce : nonce.length < 2 ^ 61) (haad : aad.length < 2 ^ 61) :
    ∃ p', p.reset nonce aad = .ok (⟨(s.reset nonce aad).1, []⟩, p')
      ∧ Packs cipher tagLength mode p' (s.reset nonce aad).2 := by
  obtain rfl := h.mode_eq
  have hstart := startMessage_packs h.stream h.keyed hnonce haad
  unfold PackedSession.reset Session.reset
  cases hs : startMessage s.stream nonce aad with
  | error e =>
    rw [hs] at hstart
    exact ⟨_, bind_eq hstart _, h.next h.stream h.keyed .faulted⟩
  | ok opened =>
    rw [hs] at hstart
    obtain ⟨p', hp, hpacks, hkeyed⟩ := hstart
    exact ⟨_, bind_eq hp _, h.next hpacks hkeyed .reset⟩

/-- **More associated data answered in memory** as by the session: in
the one phase that takes it, and with the same refusal in any other. -/
theorem Packs.authenticate (h : Packs cipher tagLength mode p s) {data : Bytes}
    (hdata : data.length < 2 ^ 61) :
    ∃ p', p.authenticate data = .ok (⟨(s.authenticate data).1, []⟩, p')
      ∧ Packs cipher tagLength mode p' (s.authenticate data).2 := by
  have hmode : s.mode = mode := h.keyed.mode_eq
  unfold PackedSession.authenticate Session.authenticate
  rw [hmode, h.phase_eq, h.mode_eq]
  by_cases hccm : mode = .ccm
  · rw [if_pos hccm, if_pos hccm]
    exact ⟨p, rfl, h⟩
  · rw [if_neg hccm, if_neg hccm]
    cases hphase : s.phase with
    | reset =>
      dsimp only
      by_cases hempty : data.isEmpty
      · rw [if_pos hempty, if_pos hempty]
        exact ⟨p, rfl, h⟩
      · have hroom : s.stream.kept + data.length < 2 ^ 61 := by
          rwa [Stream.kept_eq_zero h.keyed hccm, Nat.zero_add]
        have hstep := h.stream.authenticate fun _ => hroom
        rw [if_neg hempty, if_neg hempty]
        cases hs : s.stream.authenticate data with
        | error e =>
          rw [hs] at hstep
          exact ⟨_, bind_eq hstep _, rfl, h.tagLength_eq, hphase.symm, h.stream,
            h.keyed⟩
        | ok stream =>
          rw [hs] at hstep
          obtain ⟨p', hp, hpacks⟩ := hstep
          exact ⟨_, bind_eq hp _, rfl, h.tagLength_eq, rfl, hpacks,
            h.keyed.of_authenticate hs⟩
    | _ => exact ⟨p, rfl, h⟩

/-- What a transform is refused for is seen alike, since only the phase
and two lengths are looked at. -/
theorem Packs.objection?_eq (h : Packs cipher tagLength mode p s)
    (length capacity : Nat) :
    p.objection? length capacity = s.objection? length capacity := by
  obtain ⟨_, _, _, phase⟩ := p
  obtain rfl : phase = s.phase := h.phase_eq
  unfold PackedSession.objection? Session.objection?
  cases s.phase <;> rfl

/-- **A piece at the start of a buffer transformed in memory**, with the
rest of the buffer as it was. The memory works on the whole buffer, the
session on its two parts. -/
theorem Packs.transformStart (h : Packs cipher tagLength mode p s)
    (direction : Direction) {buffer : Bytes} {length : Nat}
    (hle : length ≤ buffer.length) :
    ∃ p', p.transformStart direction buffer length
        = .ok ((s.transformStart direction (buffer.take length)
              (buffer.drop length)).1, p')
      ∧ Packs cipher tagLength mode p'
          (s.transformStart direction (buffer.take length)
              (buffer.drop length)).2 := by
  have hpiece : (buffer.take length).length = length :=
    List.length_take_of_le hle
  have hstep := h.stream.transform direction (buffer.take length)
  have hput {result : Bytes} (hresult : result.length = length) :
      put buffer 0 length result = .ok (result ++ buffer.drop length) := by
    subst hresult
    exact put_zero hle
  unfold PackedSession.transformStart Session.transformStart
  cases hs : s.stream.transform direction (buffer.take length) with
  | error e =>
    rw [hs] at hstep
    refine ⟨_, (bind_eq (slice_zero hle) _).trans ((bind_eq hstep _).trans ?_),
      h.next h.stream h.keyed .faulted⟩
    exact bind_eq (hput hpiece) _
  | ok out =>
    rw [hs] at hstep
    obtain ⟨p', hp, hpacks⟩ := hstep
    refine ⟨_, (bind_eq (slice_zero hle) _).trans ((bind_eq hp _).trans ?_),
      h.next hpacks (h.keyed.of_transform hs) .transforming⟩
    exact bind_eq (hput ((Stream.length_of_transform hs).trans hpiece)) _

/-- **A transform answered in memory**: the input is copied to the start
of the buffer, and transformed there. -/
theorem Packs.transform (h : Packs cipher tagLength mode p s)
    (direction : Direction) (input output : Bytes) :
    ∃ p', p.transform direction input output
        = .ok ((s.transform direction input output).1, p')
      ∧ Packs cipher tagLength mode p'
        (s.transform direction input output).2 := by
  unfold PackedSession.transform Session.transform
  rw [h.objection?_eq]
  cases he : s.objection? input.length output.length with
  | some e => exact ⟨p, rfl, h⟩
  | none =>
    let task : Task := ⟨direction, input.length, input, output⟩
    have hfits : task.Fits := (objection?_eq_none_iff.mp he).2
    have hle : input.length ≤ output.length := hfits.2
    have hlen : (input ++ output.drop input.length).length = output.length := by
      rw [List.length_append, List.length_drop]
      omega
    have hstart := h.transformStart direction (hlen.symm ▸ hle)
    rw [List.take_left, List.drop_left] at hstart
    obtain ⟨p', hp, hpacks⟩ := hstart
    exact ⟨p', (bind_eq (put_zero hle) _).trans hp, hpacks⟩

/-- **A transform in place answered in memory**, where nothing has to be
copied. -/
theorem Packs.transformInPlace (h : Packs cipher tagLength mode p s)
    (direction : Direction) (buffer : Bytes) (length : Nat) :
    ∃ p', p.transformInPlace direction buffer length
        = .ok ((s.transformInPlace direction buffer length).1, p')
      ∧ Packs cipher tagLength mode p'
        (s.transformInPlace direction buffer length).2 := by
  unfold PackedSession.transformInPlace Session.transformInPlace
  rw [h.objection?_eq]
  cases he : s.objection? length buffer.length with
  | some e => exact ⟨p, rfl, h⟩
  | none =>
    let task : Task := ⟨direction, length, buffer.take length, buffer⟩
    have hfits : task.Fits := (objection?_eq_none_iff.mp he).2
    exact h.transformStart direction hfits.2

/-- Both take the same tag lengths: the one by its own record of the
mode, the other by the stream's. -/
theorem Packs.takesTagLength_eq (h : Packs cipher tagLength mode p s)
    (n : Nat) :
    p.takesTagLength n = s.takesTagLength n := by
  rw [Session.takesTagLength_eq h.keyed]
  unfold PackedSession.takesTagLength
  rw [h.mode_eq]
  cases mode with
  | gcm => exact (Bool.decide_and ..).symm
  | ccm =>
    show (n == p.tagLength) = decide (n = tagLength)
    rw [h.tagLength_eq rfl]
    rfl

/-- **A tag answered in memory**: the buffer is blanked first, and
written if there is a tag. -/
theorem Packs.tag (h : Packs cipher tagLength mode p s) (buffer : Bytes) :
    ∃ p', p.tag buffer = .ok ((s.tag buffer.length).1, p')
      ∧ Packs cipher tagLength mode p' (s.tag buffer.length).2 := by
  have hblank : (Bytes.zeros buffer.length).length = buffer.length :=
    Bytes.length_zeros _
  have hstep := h.stream.tag (Bytes.zeros buffer.length)
  rw [hblank] at hstep
  unfold PackedSession.tag Session.tag
  rw [h.phase_eq]
  cases hphase : s.phase with
  | constructed | faulted => exact ⟨p, rfl, h⟩
  | reset | transforming | tagExtracted =>
    dsimp only
    rw [hblank, h.takesTagLength_eq]
    by_cases htakes : !s.takesTagLength buffer.length
    · rw [if_pos htakes, if_pos htakes]
      exact ⟨p, rfl, h⟩
    · rw [if_neg htakes, if_neg htakes]
      cases hs : s.stream.tag buffer.length with
      | error e =>
        rw [hs] at hstep
        refine ⟨_, (bind_eq hstep _).trans ?_, h.next h.stream h.keyed .faulted⟩
        dsimp only
        rw [hblank]
        rfl
      | ok tag =>
        rw [hs] at hstep
        obtain ⟨p', hp, hpacks⟩ := hstep
        exact ⟨_, bind_eq hp _, h.next hpacks h.keyed .tagExtracted⟩

/-- **A verification in memory** asks for the tag in a buffer made for
it. -/
theorem verify_packed_eq (p : PackedSession) {expected : Bytes}
    (hexpected : expected.length < 2 ^ 61) :
    p.verify expected = p.tag (Bytes.zeros expected.length) >>= fun answer =>
      match answer.1.outcome with
      | .error e => .ok (⟨.error e, []⟩, answer.2)
      | .ok _ => if answer.1.buffer = expected then .ok (⟨.ok (), []⟩, answer.2)
          else .ok (⟨.error .authenticationFailed, []⟩, answer.2) := by
  have hroom : 0 + (Bytes.zeros expected.length).length ≤ 2 ^ 62 := by
    rw [Bytes.length_zeros]
    omega
  have hmade :
      append (Buffer.withCapacity expected.length) (Bytes.zeros expected.length)
        = .ok ((Buffer.withCapacity expected.length).append
            (Bytes.zeros expected.length)) :=
    append_eq hroom
  have hlist :
      ((Buffer.withCapacity expected.length).append
          (Bytes.zeros expected.length)).toList
        = Bytes.zeros expected.length :=
    ((Buffer.Holds.withCapacity expected.length).append
      (Bytes.zeros expected.length)).toList_eq
  unfold PackedSession.verify
  rw [bind_eq hmade, hlist]
  rfl

/-- **A verification answered in memory** with the verdict of the
session, after which both stand as after the tag. -/
theorem Packs.verify (h : Packs cipher tagLength mode p s) {expected : Bytes}
    (hexpected : expected.length < 2 ^ 61) :
    ∃ p', p.verify expected = .ok (⟨(s.verify expected).1, []⟩, p')
      ∧ Packs cipher tagLength mode p' (s.verify expected).2 := by
  obtain ⟨p', htag, hpacks⟩ := h.tag (Bytes.zeros expected.length)
  rw [Bytes.length_zeros] at htag hpacks
  rw [verify_packed_eq p hexpected, bind_eq htag]
  unfold Session.verify
  generalize s.tag expected.length = out at hpacks
  obtain ⟨⟨outcome, written⟩, s'⟩ := out
  cases outcome with
  | error e => exact ⟨p', rfl, hpacks⟩
  | ok _ =>
    dsimp only
    by_cases heq : written = expected
    · rw [if_pos heq, if_pos heq]
      exact ⟨p', rfl, hpacks⟩
    · rw [if_neg heq, if_neg heq]
      exact ⟨p', rfl, hpacks⟩

/-- **A call answered in memory** is answered as by the session, without
a fault, and the memory afterwards is one of the session afterwards. The
slices of the call are the only thing that has a bound. -/
theorem Packs.step (h : Packs cipher tagLength mode p s) {call : Call}
    (hsmall : ∀ slice ∈ call.slices, slice.length < 2 ^ 61) :
    ∃ p', p.step call = .ok ((s.step call).1, p')
      ∧ Packs cipher tagLength mode p' (s.step call).2 := by
  cases call with
  | reset nonce aad =>
    exact h.reset (hsmall nonce (List.mem_cons_self ..))
      (hsmall aad (by simp [Call.slices]))
  | authenticate data =>
    exact h.authenticate (hsmall data (List.mem_singleton_self _))
  | transform direction input output => exact h.transform direction input output
  | transformInPlace direction buffer length =>
    exact h.transformInPlace direction buffer length
  | tag buffer => exact h.tag buffer
  | verify expected =>
    exact h.verify (hsmall expected (List.mem_singleton_self _))

/-- **A history answered in memory**, and the memory after it, in which
the session after the history lies. -/
theorem Packs.exists_run (h : Packs cipher tagLength mode p s)
    (calls : List Call)
    (hsmall : ∀ call ∈ calls, ∀ slice ∈ call.slices, slice.length < 2 ^ 61) :
    ∃ p', p.run calls = .ok ((s.run calls).1, p')
      ∧ Packs cipher tagLength mode p' (s.run calls).2 := by
  induction calls generalizing p s with
  | nil => exact ⟨p, rfl, h⟩
  | cons call calls ih =>
    obtain ⟨p₁, hstep, hpacks⟩ := h.step (hsmall call (List.mem_cons_self ..))
    obtain ⟨p', hrun, hafter⟩ :=
      ih hpacks (fun call' hmem => hsmall call' (List.mem_cons_of_mem _ hmem))
    refine ⟨p', ?_, hafter⟩
    unfold PackedSession.run Session.run
    exact (bind_eq hstep _).trans (bind_eq hrun _)

/-- A history answered in memory, where it does not matter what memory
it leaves. -/
theorem Packs.run (h : Packs cipher tagLength mode p s) (calls : List Call)
    (hsmall : ∀ call ∈ calls, ∀ slice ∈ call.slices, slice.length < 2 ^ 61) :
    ∃ p', p.run calls = .ok ((s.run calls).1, p') := by
  obtain ⟨p', hrun, -⟩ := h.exists_run calls hsmall
  exact ⟨p', hrun⟩

/-- **A session made under a key in memory** is one made under the key,
for every key and tag length that fit. -/
theorem exists_packs_ofKey (mode : Mode) (tagLength : Nat) {key : Bytes}
    (hkey : key.length = 16 ∨ key.length = 24 ∨ key.length = 32)
    (htag : Stream.acceptsTagLength mode tagLength = true) :
    ∃ cipher packed session,
      PackedSession.ofKey mode key tagLength = .ok (.ok packed)
        ∧ ofKey mode key tagLength = .ok session
        ∧ Packs cipher tagLength mode packed session := by
  obtain ⟨cipher, packed, stream, hpacked, hstream, hpacks, hkeyed, -⟩ :=
    Stream.exists_packs_ofKey mode tagLength hkey htag
  obtain ⟨size, hsize⟩ : ∃ size,
    Aes.KeySize.ofLength? key.length = some size := by
    rcases hkey with h | h | h <;> rw [h] <;> exact ⟨_, rfl⟩
  unfold PackedSession.ofKey ofKey
  rw [hsize, hstream]
  cases mode with
  | gcm => exact ⟨cipher, _, _, bind_eq hpacked _, rfl, rfl, nofun, rfl, hpacks,
    hkeyed⟩
  | ccm => exact ⟨cipher, _, _, bind_eq hpacked _, rfl, rfl, fun _ => rfl, rfl,
    hpacks, hkeyed⟩

end Session

/-- **Nothing goes wrong in memory.** Under every key of one of the
three lengths, with every tag length of the mode, a stream and a session
can be made, and every history of calls to them comes to its end without
a fault: no range is beyond its row, no copy is between ranges of
different sizes, and no number is below zero or more than a word holds.
The calls may come in any order, before the first nonce and after a tag
too, with buffers and lengths of any kind; all that is asked is that
every slice is shorter than `2⁶¹` bytes, and for a stream that so is the
associated data given since a message was begun. The answers are those
of the stream and of the session, byte for byte. -/
theorem never_faults (mode : Mode) (key : Bytes) (tagLength : Nat)
    (hkey : key.length = 16 ∨ key.length = 24 ∨ key.length = 32)
    (htag : Stream.acceptsTagLength mode tagLength = true) :
    (∃ packed stream, Packed.ofKey mode key tagLength = .ok (.ok packed)
      ∧ Stream.ofKey mode key tagLength = .ok stream
      ∧ ∀ calls : List Stream.Call,
          (∀ call ∈ calls, ∀ slice ∈ call.slices, slice.length < 2 ^ 61) →
          (∀ n ≤ calls.length,
              (calls.take n).foldl (Stream.Call.aadSince mode) 0 < 2 ^ 61) →
          ∃ packed', packed.run calls = .ok ((stream.run calls).1, packed'))
    ∧ ∃ packed session,
      PackedSession.ofKey mode key tagLength = .ok (.ok packed)
        ∧ Session.ofKey mode key tagLength = .ok session
        ∧ ∀ calls : List Session.Call,
            (∀ call ∈ calls, ∀ slice ∈ call.slices, slice.length < 2 ^ 61) →
            ∃ packed',
              packed.run calls = .ok ((session.run calls).1, packed') := by
  refine ⟨?_, ?_⟩
  · obtain ⟨cipher, packed, stream, hpacked, hstream, hpacks, hkeyed, hkept⟩ :=
      Stream.exists_packs_ofKey mode tagLength hkey htag
    exact ⟨packed, stream, hpacked, hstream, fun calls hsmall haad =>
      hpacks.run hkeyed (Nat.le_of_eq hkept) calls hsmall haad⟩
  · obtain ⟨cipher, packed, session, hpacked, hsession, hpacks⟩ :=
      Session.exists_packs_ofKey mode tagLength hkey htag
    exact ⟨packed, session, hpacked, hsession,
      fun calls hsmall => hpacks.run calls hsmall⟩

/-- Before the first nonce, with nothing to transform, after a tag, and
with more to transform than there is: none of it faults, and all of it
is answered as by the stream and the session. -/
theorem never_faults_in_any_order :
    (∃ packed stream, Packed.ofKey .ccm (Bytes.zeros 16) 4 = .ok (.ok packed)
      ∧ Stream.ofKey .ccm (Bytes.zeros 16) 4 = .ok stream
      ∧ let calls : List Stream.Call :=
        [.tag [0, 0, 0, 0], .transform .encrypt [1],
          .reset (Bytes.zeros 8), .authenticate [2, 3], .transform .decrypt [],
          .tag [0, 0, 0, 0],
          .transform .encrypt [4, 5, 6], .reset [7]]
        ∃ packed', packed.run calls = .ok ((stream.run calls).1, packed'))
    ∧ ∃ packed session,
      PackedSession.ofKey .ccm (Bytes.zeros 16) 4 = .ok (.ok packed)
      ∧ Session.ofKey .ccm (Bytes.zeros 16) 4 = .ok session
      ∧ let calls : List Session.Call :=
        [.verify [], .reset (Bytes.zeros 8) [1],
          .transformInPlace .encrypt [2, 3] 4, .transform .decrypt [5] [6, 7],
          .tag [8]]
        ∃ packed', packed.run calls = .ok ((session.run calls).1, packed') := by
  obtain ⟨hstream, hsession⟩ :=
    never_faults .ccm (Bytes.zeros 16) 4 (by decide) (by decide)
  obtain ⟨packed, stream, hpacked, hstream, hruns⟩ := hstream
  obtain ⟨packed', session, hpacked', hsession, hruns'⟩ := hsession
  exact ⟨⟨packed, stream, hpacked, hstream, hruns _ (by decide) (by decide)⟩,
    packed', session, hpacked', hsession, hruns' _ (by decide)⟩

end Strongbox.Aead
