import Strongbox.Proofs.Aead.Causes
import Strongbox.Proofs.Aead.InPlace
import Strongbox.Proofs.Aead.RoundTrip

/-!
# Asking for the tag more than once

A message has one tag, and until the next reset it can be asked for as
often as one likes: written over a buffer, or compared with an expected
one, whole or, in Galois/counter mode, cut to some length. `AnswersFrom`
is a series of such queries that are all answered from one string of
bytes, and says what becomes of the session on the way. A query of a
length that the mode takes is answered by the first bytes of the string,
and a comparison leads to where writing as many bytes leads. Any other
query is refused and has not been made at all.

In a `Session` the answer is a function of the transcript, which no
query touches. In memory there is more to it: in counter with CBC-MAC
mode the checksum is worked out in the row of the session itself, so
that the second query finds there what the first has left. The law is
therefore stated over any way of answering the calls of a session, and
both are shown to have it. What carries the induction along the queries
is in the one case that the session holds its transcript, and in the
other that it lies in memory as a session that does.

* `Query` is a tag or a verification, with `Query.answerFrom` and
  `Query.refusal` for the two ways in which it is answered.
* `AnswersFrom.exists_of_invariant` is the induction along the queries,
  for any kind of state that is kept by each of them.
* `Holds.step_query_refused` and `Holds.step_query_answered` are the
  step of a session, `Keeps.step_query_refused` and
  `Keeps.exists_step_query` that of a session in memory.
* `blanksFailedTag`, of both, is about every state: a tag that is not
  written leaves nothing of what was in the buffer.
-/

namespace Strongbox.Aead

open Checked

/-- The length of the whole tag of a message: a block in Galois/counter
mode, and in the other mode what was fixed for the stream. -/
def Mode.wholeTagLength (mode : Mode) (tagLength : Nat) : Nat :=
  match mode with
  | .gcm => Gcm.maxTagLength
  | .ccm => tagLength

/-- No longer tag can be asked for, so that every tag is a beginning of
the whole one. -/
theorem Mode.TakesTag.le {mode : Mode} {tagLength n : Nat}
    (h : mode.TakesTag tagLength n) :
    n ≤ mode.wholeTagLength tagLength := by
  cases mode with
  | gcm => exact h.2
  | ccm => exact Nat.le_of_eq h

/-- The whole tag can be asked for, in both modes, and so there is a
query that it is the answer to. -/
theorem Mode.takesTag_wholeTagLength (mode : Mode) (tagLength : Nat) :
    mode.TakesTag tagLength (mode.wholeTagLength tagLength) := by
  cases mode with
  | gcm => exact ⟨Nat.succ_le_succ (Nat.zero_le 15), Nat.le_refl 16⟩
  | ccm => rfl

namespace Session

/-- **A query** for the tag of a message. Both kinds have a length, the
one of their buffer and the other of what they expect. -/
inductive Query where
  /-- Write the tag over a buffer. -/
  | tag (buffer : Bytes)
  /-- Compare the tag with an expected one. -/
  | verify (expected : Bytes)
  deriving DecidableEq, Repr

namespace Query

/-- The call that makes a query: each of the two that ask for the tag,
with its argument. -/
def call : Query → Call
  | tag buffer => .tag buffer
  | verify expected => .verify expected

/-- How much of the tag is asked for: as many bytes as the buffer or the
expected string has. -/
def length : Query → Nat
  | tag buffer => buffer.length
  | verify expected => expected.length

/-- **The answer to a query** where the whole tag is given. A buffer
gets its first bytes; an expected string is compared with as many, and
nothing is handed out. -/
def answerFrom (whole : Bytes) : Query → Reply Error
  | tag buffer => ⟨.ok (), whole.take buffer.length⟩
  | verify expected =>
    ⟨if whole.take expected.length = expected then .ok ()
      else .error .authenticationFailed, []⟩

/-- **The refusal of a query** for its length, which leaves nothing in
the buffer. -/
def refusal : Query → Reply Error
  | tag buffer => ⟨.error (.tagLength buffer.length), Bytes.zeros buffer.length⟩
  | verify expected => ⟨.error (.tagLength expected.length), []⟩

end Query

end Session

open Session (Call Query)

/-! ## The laws -/

section Laws

variable {σ : Type} (step : σ → Call → Checked (Reply Error × σ))
  (takes : Nat → Prop)
  (whole : Bytes)

/-- **A series of queries answered from one tag**, with the state it
leads to. -/
inductive AnswersFrom : σ → List Query → σ → Prop
  /-- No query. -/
  | nil (s : σ) : AnswersFrom s [] s
  /-- A query of a length that is not taken changes nothing. -/
  | refused {s s' : σ} {query : Query} {later : List Query}
    (hlength : ¬takes query.length)
    (hstep : step s query.call = .ok (query.refusal, s))
    (h : AnswersFrom s later s') :
    AnswersFrom s (query :: later) s'
  /-- A query of a length that is taken leads to where every query of
  that length leads. -/
  | answered {s t s' : σ} {query : Query} {later : List Query}
    (hlength : takes query.length)
    (hstep : ∀ other : Query, other.length = query.length →
      step s other.call = .ok (other.answerFrom whole, t))
    (h : AnswersFrom t later s') : AnswersFrom s (query :: later) s'

/-- **A tag that is not written leaves zeros**, whatever was there and
for whatever reason it is not written. -/
def BlanksFailedTag (s : σ) : Prop :=
  ∀ (buffer : Bytes) (answer : Reply Error × σ) (e : Error),
    step s (.tag buffer) = .ok answer → answer.1.outcome = .error e →
    answer.1.buffer = Bytes.zeros buffer.length

variable {step takes whole}

/-- **Queries are answered from one tag** as long as a kind of state
lasts in which each one is, and which none of them leads out of. The
state may change with every query that is answered. -/
theorem AnswersFrom.exists_of_invariant (P : σ → Prop) (small : Nat → Prop)
    (hrefused : ∀ {s : σ} {query : Query}, P s → small query.length
        → ¬takes query.length → step s query.call = .ok (query.refusal, s))
    (hanswered : ∀ {s : σ} {n : Nat}, P s → small n → takes n
        → ∃ t, P t ∧ ∀ query : Query,
        query.length = n → step s query.call = .ok (query.answerFrom whole, t))
    {s : σ} (hs : P s) (queries : List Query)
    (hsmall : ∀ query ∈ queries, small query.length) :
    ∃ s', AnswersFrom step takes whole s queries s' := by
  induction queries generalizing s with
  | nil => exact ⟨s, .nil s⟩
  | cons query later ih =>
    have hquery := hsmall query (List.mem_cons_self ..)
    have hlater : ∀ query ∈ later, small query.length :=
      fun query hmem => hsmall query (List.mem_cons_of_mem _ hmem)
    by_cases hlength : takes query.length
    · obtain ⟨t, ht, hstep⟩ := hanswered hs hquery hlength
      obtain ⟨s', h⟩ := ih ht hlater
      exact ⟨s', .answered hlength hstep h⟩
    · obtain ⟨s', h⟩ := ih hs hlater
      exact ⟨s', .refused hlength (hrefused hs hquery hlength) h⟩

end Laws

/-! ## Sessions -/

namespace Session

variable {cipher : BlockCipher} {tagLength : Nat} {mode : Mode} {t : Transcript}
  {s : Session}

/-- **The whole tag of a message**, as its session gives it out: the tag
of the transcript, cut to the length of the mode. -/
def wholeTag (mode : Mode) (cipher : BlockCipher) (tagLength : Nat)
    (t : Transcript) : Bytes :=
  (t.tag mode cipher.encrypt tagLength).toBytes.take
    (mode.wholeTagLength tagLength)

/-- The whole tag has the length that it is named for, because no tag
that is accepted is longer than a block. -/
theorem length_wholeTag (htag : Stream.acceptsTagLength mode tagLength = true) :
    (wholeTag mode cipher tagLength t).length
      = mode.wholeTagLength tagLength := by
  have hblock : mode.wholeTagLength tagLength ≤ 16 :=
    length_le_of_takesTag htag (mode.takesTag_wholeTagLength tagLength)
  exact List.length_take_of_le (hblock.trans_eq (Block.length_toBytes _).symm)

/-- Every tag is cut from the whole one: cutting twice is cutting to the
shorter length. -/
theorem take_wholeTag {n : Nat} (hn : mode.TakesTag tagLength n) :
    (wholeTag mode cipher tagLength t).take n
      = (t.tag mode cipher.encrypt tagLength).toBytes.take n := by
  unfold wholeTag
  rw [List.take_take, Nat.min_eq_left hn.le]

/-- **A query is a tag** that is handed out, or looked at. Where it
leads the session depends on its length only. -/
theorem step_query (s : Session) (query : Query) :
    s.step query.call = (match query with
      | .tag _ => (s.tag query.length).1
      | .verify expected => ⟨match (s.tag query.length).1.outcome with
        | .error e => .error e
        | .ok _ => if (s.tag query.length).1.buffer = expected then .ok ()
            else .error .authenticationFailed, []⟩,
              (s.tag query.length).2) := by
  cases query with
  | tag buffer => rfl
  | verify expected => exact step_verify s expected

/-- A query of a length that the mode does not take is refused, and has
not been made. -/
theorem Holds.step_query_refused (h : Holds cipher tagLength mode t s)
    {query : Query} (hlength : ¬mode.TakesTag tagLength query.length) :
    s.step query.call = (query.refusal, s) := by
  rw [step_query, h.tag_eq, if_neg hlength]
  cases query <;> rfl

/-- A query of a length that the mode takes is answered from the whole
tag, and closes the message. -/
theorem Holds.step_query_answered (h : Holds cipher tagLength mode t s)
    {query : Query} (hlength : mode.TakesTag tagLength query.length) :
    s.step query.call
      = (query.answerFrom (wholeTag mode cipher tagLength t),
          { s with phase := .tagExtracted }) := by
  rw [step_query, h.tag_eq, if_pos hlength, ← take_wholeTag hlength]
  cases query <;> rfl

/-- **Queries in a message** are answered from its tag. The invariant is
that the session holds its transcript, which no query touches. -/
theorem Holds.answersFrom (h : Holds cipher tagLength mode t s)
    (queries : List Query) :
    ∃ s', AnswersFrom Session.answer (mode.TakesTag tagLength)
      (wholeTag mode cipher tagLength t)
      s queries s' := by
  refine AnswersFrom.exists_of_invariant (Holds cipher tagLength mode t)
    (fun _ => True)
    (fun hs _ hlength => congrArg Except.ok (hs.step_query_refused hlength))
    (fun {s n} hs _ hn => ⟨_, hs.tagExtracted, ?_⟩) h queries
      (fun _ _ => trivial)
  rintro query rfl
  exact congrArg Except.ok (hs.step_query_answered hn)

/-- A session that writes no tag has blanked the buffer, in every phase
and for every reason. -/
theorem blanksFailedTag (s : Session) : BlanksFailedTag Session.answer s := by
  intro buffer answer e hstep he
  obtain rfl : s.tag buffer.length = answer := Except.ok.inj hstep
  unfold tag at he ⊢
  cases hphase : s.phase with
  | constructed | faulted => rfl
  | reset | transforming | tagExtracted =>
    rw [hphase] at he
    dsimp only at he ⊢
    split
    case isTrue => rfl
    case isFalse htakes =>
      rw [if_neg htakes] at he
      cases htag : s.stream.tag buffer.length with
      | error cause => rfl
      | ok tag =>
        rw [htag] at he
        cases he

end Session

/-! ## Sessions in memory -/

namespace PackedSession

variable {cipher cipher' : BlockCipher} {tagLength : Nat} {mode : Mode}
  {t : Transcript}
  {p : PackedSession} {s : Session}

/-- A tag is not asked what the buffer held, but only how long it is. So
a comparison can be done in a buffer of zeros of its own. -/
theorem tag_eq_tag_zeros (p : PackedSession) (buffer : Bytes) :
    p.tag buffer = p.tag (Bytes.zeros buffer.length) := by
  unfold tag
  rw [Bytes.length_zeros]

/-- A length that is not taken is refused before the stream is asked, so
that the memory is not worked in. -/
theorem tag_refused (h : Session.Packs cipher tagLength mode p s)
    (hin : s.phase.inMessage = true) {buffer : Bytes}
    (hlength : ¬mode.TakesTag tagLength buffer.length) :
    p.tag buffer
      = .ok (⟨.error (.tagLength buffer.length), Bytes.zeros buffer.length⟩,
        p) := by
  have htakes : (!p.takesTagLength (Bytes.zeros buffer.length).length)
    = true := by
    rw [Bytes.length_zeros, h.takesTagLength_eq,
      Session.takesTagLength_eq h.keyed,
      decide_eq_false hlength]
    rfl
  unfold tag
  rw [h.phase_eq]
  cases hphase : s.phase with
  | constructed | faulted =>
    rw [hphase] at hin
    exact Bool.noConfusion hin
  | reset | transforming | tagExtracted =>
    dsimp only
    rw [if_pos htakes, Bytes.length_zeros]
    rfl

/-- **A message in memory**: the session lies in it, and holds a
transcript. Which of its memories it is may change from query to query. -/
def Keeps (cipher cipher' : BlockCipher) (tagLength : Nat) (mode : Mode)
    (t : Transcript) (p : PackedSession) : Prop :=
  ∃ s, Session.Packs cipher' tagLength mode p s
    ∧ Session.Holds cipher tagLength mode t s

/-- A query of a length that is not taken is refused in memory as well,
and leaves the memory as it was. -/
theorem Keeps.step_query_refused (h : Keeps cipher cipher' tagLength mode t p)
    {query : Query} (hsmall : query.length < 2 ^ 61)
    (hlength : ¬mode.TakesTag tagLength query.length) :
    p.step query.call = .ok (query.refusal, p) := by
  obtain ⟨s, hpacks, hholds⟩ := h
  cases query with
  | tag buffer => exact tag_refused hpacks hholds.inMessage hlength
  | verify expected =>
    have hzeros : (Bytes.zeros expected.length).length = expected.length :=
      Bytes.length_zeros _
    show p.verify expected = _
    rw [Session.verify_packed_eq p hsmall,
      tag_refused hpacks hholds.inMessage (by rwa [hzeros]), hzeros]
    rfl

/-- A query of a length that is taken is answered from the whole tag,
and leaves the session in some memory that still holds the transcript. -/
theorem Keeps.exists_step_query (h : Keeps cipher cipher' tagLength mode t p)
    {n : Nat} (hsmall : n < 2 ^ 61) (hn : mode.TakesTag tagLength n) :
    ∃ p', Keeps cipher cipher' tagLength mode t p' ∧ ∀ query : Query,
      query.length = n →
      p.step query.call
        = .ok (query.answerFrom (Session.wholeTag mode cipher tagLength t),
            p') := by
  obtain ⟨s, hpacks, hholds⟩ := h
  obtain ⟨p', htag, hpacks'⟩ := hpacks.tag (Bytes.zeros n)
  rw [Bytes.length_zeros, hholds.tag_eq, if_pos hn, ← Session.take_wholeTag hn]
    at htag hpacks'
  refine ⟨p', ⟨_, hpacks', hholds.tagExtracted⟩, ?_⟩
  rintro query rfl
  cases query with
  | tag buffer => exact (tag_eq_tag_zeros p buffer).trans htag
  | verify expected =>
    have hwritten : p.tag (Bytes.zeros expected.length)
        = .ok (⟨.ok (),
            (Session.wholeTag mode cipher tagLength t).take expected.length⟩,
          p') :=
      htag
    show p.verify expected = _
    rw [Session.verify_packed_eq p hsmall, bind_eq hwritten]
    dsimp only [Query.answerFrom]
    split <;> rfl

/-- **Queries in a message in memory** are answered from its tag, in
whatever state the queries before have left the memory. -/
theorem Keeps.answersFrom (h : Keeps cipher cipher' tagLength mode t p)
    (queries : List Query) (hsmall : ∀ query ∈ queries, query.length < 2 ^ 61) :
    ∃ p', AnswersFrom step (mode.TakesTag tagLength)
      (Session.wholeTag mode cipher tagLength t)
      p queries p' :=
  AnswersFrom.exists_of_invariant (Keeps cipher cipher' tagLength mode t)
    (· < 2 ^ 61)
    (fun hp hs hlength => hp.step_query_refused hs hlength)
    (fun hp hs hn => hp.exists_step_query hs hn) h queries hsmall

/-- A session in memory that writes no tag has blanked the buffer, if it
has come to an answer at all. -/
theorem blanksFailedTag (p : PackedSession) : BlanksFailedTag step p := by
  intro buffer answer e hstep he
  have hstep : p.tag buffer = .ok answer := hstep
  unfold tag at hstep
  cases hphase : p.phase with
  | constructed | faulted =>
    rw [hphase] at hstep
    cases hstep
    rfl
  | reset | transforming | tagExtracted =>
    rw [hphase] at hstep
    dsimp only at hstep
    split at hstep
    · cases hstep
      rfl
    · obtain ⟨⟨⟨outcome, written⟩, stream⟩, hstream, hlast⟩ :=
        exists_of_bind_eq_ok hstep
      cases outcome with
      | ok _ =>
        cases hlast
        cases he
      | error cause =>
        -- What the stream refuses it leaves, and it has been given zeros.
        cases p.stream.step_leavesAll _ _ hstream cause rfl
        cases hlast
        show Bytes.zeros (Bytes.zeros buffer.length).length = _
        rw [Bytes.length_zeros]

end PackedSession

/-! ## The law -/

namespace Session

/-- A session is made only of a key and a tag length that fit, so that
nothing need be assumed of either where a session is given. -/
theorem accepts_of_ofKey {mode : Mode} {key : Bytes} {tagLength : Nat}
    {s : Session} (hs : ofKey mode key tagLength = .ok s) :
    (key.length = 16 ∨ key.length = 24 ∨ key.length = 32)
      ∧ Stream.acceptsTagLength mode tagLength = true := by
  have hmade {e : Error} (he : ofKey mode key tagLength = .error e) : False :=
    nomatch hs.symm.trans he
  have hkey : key.length ∈ [16, 24, 32] :=
    Decidable.by_contra fun hnot =>
      hmade (ofKey_eq_error_iff.mpr (.inl ⟨rfl, hnot⟩))
  refine ⟨by simpa using hkey, ?_⟩
  cases mode with
  | gcm => rfl
  | ccm =>
    have htag : tagLength ∈ Ccm.tagLengths := Decidable.by_contra fun hnot =>
      hmade (ofKey_eq_error_iff.mpr (.inr ⟨rfl, hkey, rfl, hnot⟩))
    exact List.contains_iff_mem.mpr htag

/-- **All queries of a message are answered from one tag.** Take any
session made of a key, and any calls after which the latest reset was
granted and no transform has broken the message since. There is one
string of bytes, as long as the whole tag, from which every series of
queries is answered, in any order and of any lengths; and from the same
string where the session lies in memory. In every state a tag that is
not written leaves zeros. -/
theorem queries_answered_from_one_tag :
    (∀ (mode : Mode) (key : Bytes) (tagLength : Nat) (s : Session),
      ofKey mode key tagLength = .ok s → ∀ calls : List Call,
      History.Opened (s.history calls)
        → History.NoneSince Event.isBroken (s.history calls) →
      ∃ whole : Bytes, whole.length = mode.wholeTagLength tagLength
        ∧ (∀ queries : List Query, ∃ s',
            AnswersFrom answer (mode.TakesTag tagLength) whole (s.run calls).2
              queries s')
        ∧ ∃ packed, PackedSession.ofKey mode key tagLength = .ok (.ok packed)
          ∧ ((∀ call ∈ calls, ∀ slice ∈ call.slices, slice.length < 2 ^ 61) →
            ∃ p, packed.run calls = .ok ((s.run calls).1, p)
              ∧ ∀ queries : List Query,
                (∀ query ∈ queries, query.length < 2 ^ 61) →
                ∃ p', AnswersFrom PackedSession.step (mode.TakesTag tagLength)
                  whole p queries p'))
    ∧ (∀ s : Session, BlanksFailedTag answer s)
    ∧ ∀ p : PackedSession, BlanksFailedTag PackedSession.step p := by
  refine ⟨?_, blanksFailedTag, PackedSession.blanksFailedTag⟩
  intro mode key tagLength s hs calls hopened hunbroken
  obtain ⟨cipher, hfollows⟩ := follows_history hs calls
  have hholds :=
    hfollows.holds (hfollows.phase.inMessage.mpr ⟨hopened, hunbroken⟩)
  have hlast : (s.run calls).2 = Aead.after Session.step s calls := by
    rw [run_eq]
  rw [← hlast] at hholds
  obtain ⟨hkey, htag⟩ := accepts_of_ofKey hs
  obtain ⟨cipher', packed, s', hpacked, hs', hpacks⟩ :=
    exists_packs_ofKey mode tagLength hkey htag
  obtain rfl : s' = s := Except.ok.inj (hs'.symm.trans hs)
  refine ⟨wholeTag mode cipher tagLength _, length_wholeTag htag,
    hholds.answersFrom, packed, hpacked, fun hsmall => ?_⟩
  obtain ⟨p, hrun, hafter⟩ := hpacks.exists_run calls hsmall
  exact ⟨p, hrun, PackedSession.Keeps.answersFrom ⟨_, hafter, hholds⟩⟩

/-- In memory, of a message without a byte: too short a query, a guess,
and the tag. The guess does not fail the message, and the tag is the one
that there would have been without it. -/
theorem queries_answered_from_one_tag_of_aad :
    ∃ packed p whole,
      PackedSession.ofKey .ccm (Bytes.zeros 16) 4 = .ok (.ok packed)
        ∧ packed.run [.reset (Bytes.zeros 12) [1]] = .ok ([⟨.ok (), []⟩], p)
          ∧ whole.length = 4
        ∧ ∃ p', AnswersFrom PackedSession.step (Mode.ccm.TakesTag 4) whole p
            [.tag [5, 6], .verify [1, 2, 3, 4], .tag [7, 7, 7, 7]] p' := by
  have hkey : (Bytes.zeros 16).length = 16 := rfl
  obtain ⟨cipher, s, hs, hkeyed⟩ := exists_ofKey .ccm 4 (.inl hkey) rfl
  obtain ⟨opened, hreset, -⟩ := step_reset_granted hkeyed
    (show Mode.ccm.openingRefusal? (Bytes.zeros 12) ([1] : Bytes).length
        = none from rfl)
  let calls : List Call := [.reset (Bytes.zeros 12) [1]]
  have hhistory : s.history calls = [.opened (Bytes.zeros 12) [1]] := by
    rw [history_cons, hreset]
    rfl
  have hreplies : (s.run calls).1 = [⟨.ok (), []⟩] := by
    show [(s.step (.reset (Bytes.zeros 12) [1])).1] = _
    rw [hreset]
  obtain ⟨whole, hlength, -, packed, hpacked, hmemory⟩ :=
    queries_answered_from_one_tag.1 .ccm (Bytes.zeros 16) 4 s hs calls
      (hhistory ▸ ⟨_, _, rfl⟩) (hhistory ▸ by simp [Event.isReset])
  obtain ⟨p, hrun, hqueries⟩ := hmemory (by decide)
  exact ⟨packed, p, whole, hpacked, hreplies
    ▸ hrun, hlength, hqueries _ (by decide)⟩

end Session

end Strongbox.Aead
