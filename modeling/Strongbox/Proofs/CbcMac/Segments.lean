import Mathlib.Data.List.DropRight
import Strongbox.Proofs.Aead.Ccm.Packed

/-!
# The chain of any list of calls

A chain is fed in calls, and the calls leave no trace in it but the
bytes that stand between one `pad` and the next. `CbcMac.segments` is
what they come to: the byte strings that a `pad` has closed, and the one
that is still open. Cut into blocks, every segment for itself and its
last block filled up with zeros, they are what the chain runs over
(`CbcMac.blocks`).

`chain_is_over_segments` says so of every list of calls, of a chain as
it is computed and as it lies in the range of bytes in which it runs,
whatever that range has held. The step is one call (`Fed.step`). What
carries it is `Holds`, which says of a chain at any point of a block
which blocks are done and which bytes are in the block under way; in a
chain that has been `Fed`, the blocks are those of the closed segments
and the bytes are the open one.

A list of calls is divided from its beginning, while a call is added at
its end. `segments_append` joins the two: what is added goes on with the
open segment, unless a chain is begun in it, and then all that comes
before is forgotten.

The last theorem has four parts: that nothing faults in the range, that
the chaining value is the chain over the blocks whenever no block is
under way, that the result depends on the segments alone, and that a
`pad` at a block boundary is no call at all. The chain over a message,
with its opening block, its associated data and its plaintext, is then
one list of calls among others (`mac_eq_run`).
-/

namespace Strongbox

/-- **Dividing a list that goes on.** The parts but the last one stay,
and the last one goes on with the first part of what is added. -/
theorem exists_splitOn_append {α : Type} [BEq α] (separator : α) (xs : List α) :
    ∃ closed last, xs.splitOn separator = closed ++ [last]
      ∧ ∀ ys first rest, ys.splitOn separator = first :: rest →
        (xs ++ ys).splitOn separator = closed ++ (last ++ first) :: rest := by
  induction xs with
  | nil => exact ⟨[], [], rfl, fun ys first rest h => h⟩
  | cons x xs ih =>
    obtain ⟨closed, last, hxs, hadd⟩ := ih
    simp only [List.cons_append, List.splitOn_cons_eq_if_modifyHead]
    by_cases hx : x == separator
    · refine ⟨[] :: closed, last, ?_, fun ys first rest h => ?_⟩
      · rw [if_pos hx, hxs]
        rfl
      · rw [if_pos hx, hadd ys first rest h]
        rfl
    · -- the element goes to the front of the first part, if it is the last
      -- one or not
      cases closed with
      | nil =>
        refine ⟨[], x :: last, ?_, fun ys first rest h => ?_⟩
        · rw [if_neg hx, hxs]
          rfl
        · rw [if_neg hx, hadd ys first rest h]
          rfl
      | cons part closed =>
        refine ⟨(x :: part) :: closed, last, ?_, fun ys first rest h => ?_⟩
        · rw [if_neg hx, hxs]
          rfl
        · rw [if_neg hx, hadd ys first rest h]
          rfl

namespace CbcMac

open Checked

/-! ## Segments -/

/-- The bytes that a call hands over. -/
def Call.data : Call → Bytes
  | start => []
  | update data => data
  | pad => []

/-- The calls on the chain that is under way: those after the latest
`start`, or all of them if there is none among them. -/
def underWay (calls : List Call) : List Call := calls.rtakeWhile (· ≠ .start)

/-- **The segments of a chain**: what is handed over between one `pad`
and the next, joined. There is always one, the open one. -/
def segments (calls : List Call) : List Bytes :=
  ((underWay calls).splitOn .pad).map (·.flatMap Call.data)

/-- The segments that a `pad` has closed. -/
def closedSegments (calls : List Call) : List Bytes := (segments calls).dropLast

/-- The segment that is still open. -/
def openSegment (calls : List Call) : Bytes := (segments calls).getLastD []

/-- **The blocks of a chain**: every segment is cut for itself, and its
last block is filled up with zeros. -/
def blocks (calls : List Call) : List Block :=
  (segments calls).flatMap Block.split

variable {calls later : List Call}

/-- Calls that begin nothing are added to those on the chain under way,
behind them. -/
theorem underWay_append_of_notMem (calls : List Call) (h : Call.start ∉ later) :
    underWay (calls ++ later) = underWay calls ++ later := by
  unfold underWay List.rtakeWhile
  rw [List.reverse_append, List.takeWhile_append_of_pos, List.reverse_append,
    List.reverse_reverse]
  intro call hmem
  exact decide_eq_true fun hstart => h (hstart ▸ List.mem_reverse.mp hmem)

/-- What comes before a `start` is forgotten, however far on in the list
the `start` is. -/
theorem underWay_append_of_mem (calls : List Call) (h : Call.start ∈ later) :
    underWay (calls ++ later) = underWay later := by
  unfold underWay List.rtakeWhile
  rw [List.reverse_append, List.takeWhile_append, if_neg]
  intro hall
  have hwhole := (List.takeWhile_prefix (· ≠ Call.start)).eq_of_length hall
  have hstart := List.mem_takeWhile_imp (hwhole.symm ▸ List.mem_reverse.mpr h)
  exact of_decide_eq_true hstart rfl

/-- Calls that begin nothing are all on the chain under way. -/
theorem underWay_eq_self (h : Call.start ∉ calls) : underWay calls = calls :=
  underWay_append_of_notMem [] h

/-- There is always a segment, since the last one is open, though there
may be no byte in it. -/
theorem segments_ne_nil (calls : List Call) : segments calls ≠ [] := by
  rw [segments, Ne, List.map_eq_nil_iff]
  exact List.splitOn_ne_nil Call.pad (underWay calls)

/-- The segments are the closed ones and the open one, in this order.
The two functions take apart what the division has put together. -/
theorem segments_eq (calls : List Call) :
    segments calls = closedSegments calls ++ [openSegment calls] := by
  have hne : segments calls ≠ [] := segments_ne_nil calls
  have hlast : (segments calls).getLast hne = openSegment calls := by
    rw [openSegment, List.getLastD_eq_getLast?,
      List.getLast?_eq_some_getLast hne]
    rfl
  rw [← hlast, closedSegments, List.dropLast_concat_getLast]

/-- Which segments are closed and which one is open, if the list of them
is known with its last element apart. -/
theorem parts_of_segments_eq {parts : List Bytes} {last : Bytes}
    (h : segments calls = parts ++ [last]) :
    closedSegments calls = parts ∧ openSegment calls = last :=
  ⟨by rw [closedSegments, h, List.dropLast_concat],
    by rw [openSegment, h, List.getLastD_concat]⟩

/-- **Segments of a list of calls that goes on** with the chain under
way. The closed ones stay, and the open one goes on with the first
segment of what is added. -/
theorem segments_append (calls : List Call) (hlater : Call.start ∉ later)
    {first : Bytes} {rest : List Bytes}
    (hrest : segments later = first :: rest) :
    segments (calls ++ later)
      = closedSegments calls ++ (openSegment calls ++ first) :: rest := by
  obtain ⟨parts, last, hparts, hadd⟩ :=
    exists_splitOn_append Call.pad (underWay calls)
  have hsegments : segments calls
      = parts.map (·.flatMap Call.data) ++ [last.flatMap Call.data] := by
    rw [segments, hparts, List.map_append]
    rfl
  rw [segments, underWay_eq_self hlater] at hrest
  obtain ⟨head, tail, htail, rfl, rfl⟩ := List.map_eq_cons_iff.mp hrest
  obtain ⟨hclosed, hopen⟩ := parts_of_segments_eq hsegments
  rw [hclosed, hopen, segments, underWay_append_of_notMem calls hlater,
    hadd later head tail htail, List.map_append, List.map_cons,
    List.flatMap_append]

/-- A chain that has just been begun has one segment, and it is empty,
whatever has been called before. -/
theorem segments_start (calls : List Call) :
    segments (calls ++ [.start]) = [[]] := by
  rw [segments, underWay_append_of_mem calls (List.mem_singleton.mpr rfl)]
  rfl

/-- **Bytes go on with the open segment.** That they come in a call of
their own leaves no trace. -/
theorem segments_update (calls : List Call) (data : Bytes) :
    segments (calls ++ [.update data])
      = closedSegments calls ++ [openSegment calls ++ data] := by
  have hone : segments [.update data] = [data] := by
    show [data ++ []] = [data]
    rw [List.append_nil]
  exact segments_append calls (by simp) hone

/-- A `pad` before anything else closes an empty segment, which has no
blocks. -/
theorem segments_cons_pad (h : Call.start ∉ later) :
    segments (.pad :: later) = [] :: segments later := by
  have hpad : Call.start ∉ .pad :: later := by simpa using h
  rw [segments, segments, underWay_eq_self hpad, underWay_eq_self h,
    List.splitOn_cons_eq_if_modifyHead, if_pos (beq_self_eq_true Call.pad)]
  rfl

/-- **A `pad` closes the open segment** and opens an empty one. -/
theorem segments_pad (calls : List Call) :
    segments (calls ++ [.pad])
      = closedSegments calls ++ [openSegment calls] ++ [[]] := by
  rw [segments_append calls (by simp) (segments_cons_pad List.not_mem_nil),
    List.append_nil,
    List.append_assoc]
  rfl

/-- The blocks are those of the closed segments and those of the open
one, the last of which may not be full. -/
theorem blocks_eq (calls : List Call) :
    blocks calls
      = (closedSegments calls).flatMap Block.split
        ++ Block.split (openSegment calls) := by
  rw [blocks, segments_eq, List.flatMap_append, List.flatMap_singleton]

/-- **The bytes of the blocks** are the segments one after the other,
each filled up with zeros to a whole number of blocks. -/
theorem flatMap_toBytes_blocks (calls : List Call) :
    (blocks calls).flatMap Block.toBytes
      = (segments calls).flatMap Block.padded := by
  rw [blocks, List.flatMap_assoc]
  exact List.flatMap_congr fun segment _ => Block.flatMap_toBytes_split segment

/-- **A `pad` at a block boundary adds no block**, whatever comes after
it. -/
theorem blocks_append_pad (h : 16 ∣ (openSegment calls).length)
    (later : List Call) :
    blocks (calls ++ .pad :: later) = blocks (calls ++ later) := by
  by_cases hstart : Call.start ∈ later
  · have hpad : Call.start ∈ .pad :: later := List.mem_cons_of_mem _ hstart
    rw [blocks, blocks, segments, segments, underWay_append_of_mem calls hpad,
      underWay_append_of_mem calls hstart, ← List.singleton_append,
      underWay_append_of_mem [.pad] hstart]
  · have hpad : Call.start ∉ .pad :: later := by simpa using hstart
    obtain ⟨first, rest, hlater⟩ :=
      List.exists_cons_of_ne_nil (segments_ne_nil later)
    rw [blocks, blocks, segments_append calls hpad (segments_cons_pad hstart),
      segments_append calls hstart hlater, hlater]
    simp only [List.flatMap_append, List.flatMap_cons, Block.split_append _ _ h,
      List.append_nil, List.append_assoc]

/-! ## Chains that have been fed -/

section

variable {cipher : Block → Block} {mac : CbcMac}

/-- **A chain that has been fed some calls**: the blocks of the closed
segments are done, and the bytes of the open one have been added. -/
def Fed (cipher : Block → Block) (calls : List Call) (mac : CbcMac) : Prop :=
  Holds cipher ((closedSegments calls).flatMap Block.split) (openSegment calls)
    mac

/-- What it means to have been fed, if the segments are known with the
last one apart. -/
theorem fed_iff {parts : List Bytes} {last : Bytes}
    (h : segments calls = parts ++ [last]) :
    Fed cipher calls mac
      ↔ Holds cipher (parts.flatMap Block.split) last mac := by
  obtain ⟨hclosed, hopen⟩ := parts_of_segments_eq h
  rw [Fed, hclosed, hopen]

/-- A chain is begun wherever there has been one: with no block done and
no byte added. -/
theorem fed_restart (cipher : Block → Block) (left : CbcMac)
    (h : segments calls = [[]]) :
    Fed cipher calls left.restart := by
  rw [restart_eq, fed_iff (List.nil_append [([] : Bytes)] ▸ h)]
  exact .start cipher

/-- **One more call**, of any kind. A `start` forgets, an `update` goes
on with the open segment, and a `pad` closes it. -/
theorem Fed.step (h : Fed cipher calls mac) (call : Call) :
    Fed cipher (calls ++ [call]) (mac.step cipher call) := by
  cases call with
  | start => exact fed_restart cipher mac (segments_start calls)
  | update data =>
    rw [fed_iff (segments_update calls data)]
    exact Holds.absorb h data
  | pad =>
    rw [fed_iff (segments_pad calls), List.flatMap_append,
      List.flatMap_singleton]
    exact Holds.pad h

/-- **Any list of calls**, after one that begins a chain. The induction
is from the end of the list, with one more call at each step. -/
theorem fed_run (cipher : Block → Block) (left : CbcMac) (calls : List Call) :
    Fed cipher calls (left.run cipher (.start :: calls)) := by
  induction calls using List.reverseRecOn with
  | nil => exact fed_restart cipher left rfl
  | append_singleton calls call ih =>
    rw [← List.cons_append, run_append]
    exact ih.step call

/-- The segments leave no choice: blocks done and bytes added determine
the chain. -/
theorem Fed.unique {calls' : List Call} {mac' : CbcMac}
    (h : Fed cipher calls mac) (h' : Fed cipher calls' mac')
    (hsegments : segments calls' = segments calls) :
    mac' = mac := by
  rw [fed_iff (hsegments.trans (segments_eq calls))] at h'
  obtain ⟨chain, filled⟩ := mac
  obtain ⟨chain', filled'⟩ := mac'
  rw [CbcMac.mk.injEq]
  exact ⟨h'.chain.trans h.chain.symm, h'.filled.trans h.filled.symm⟩

/-- At a block boundary there is nothing to close, and a `pad` does
nothing. -/
theorem step_pad_of_filled_eq_zero (cipher : Block → Block)
    (h : mac.filled = 0) :
    mac.step cipher .pad = mac := if_pos h

end

/-! ## In memory -/

/-- **Any list of calls in a range**, once there is a chain in it, runs
without a fault and as the chain does. -/
theorem pack_run (cipher : BlockCipher) {mac : CbcMac} (h : mac.filled < 16)
    (calls : List Call) :
    Packed.run cipher mac.pack calls
      = .ok (mac.run cipher.encrypt calls).pack := by
  induction calls generalizing mac with
  | nil => rfl
  | cons call later ih =>
    have hstep : Packed.step cipher mac.pack call
      = .ok (mac.step cipher.encrypt call).pack
        ∧ (mac.step cipher.encrypt call).filled < 16 := by
      cases call with
      | start =>
        exact ⟨congrArg Except.ok (start_pack mac), Nat.zero_lt_succ 15⟩
      | update data => exact pack_update cipher h data
      | pad => exact ⟨pack_pad mac, filled_pad_lt cipher h⟩
    rw [Packed.run_cons, hstep.1, ok_bind]
    exact ih hstep.2

/-- **A chain begun in a range**, whatever the range has held. The place
need not even have been within a block. -/
theorem pack_run_start (cipher : BlockCipher) (left : CbcMac)
    (calls : List Call) :
    Packed.run cipher left.pack (.start :: calls)
      = .ok (left.run cipher.encrypt (.start :: calls)).pack := by
  have hstart : Packed.step cipher left.pack .start = .ok left.restart.pack :=
    congrArg Except.ok (start_pack left)
  rw [Packed.run_cons, hstart, ok_bind]
  exact pack_run cipher (Nat.zero_lt_succ 15) calls

/-! ## The chain over the segments -/

/-- **A chain that has run over the segments** of some calls. Nothing
else of the calls occurs in the fields, neither their number nor where
they were cut. -/
structure OverSegments (cipher : Block → Block) (calls : List Call)
    (mac : CbcMac) : Prop where
  /-- As many bytes of the block under way have been added as the open
  segment leaves over its whole blocks. -/
  filled_eq : mac.filled = (openSegment calls).length % 16
  /-- After a `pad` no block is under way. -/
  filled_eq_zero_of_pad : calls.getLast? = some .pad → mac.filled = 0
  /-- **While no block is under way**, the chaining value is the chain
  over the blocks. -/
  chain_eq : mac.filled = 0 → mac.chain = ofBlocks cipher (blocks calls)

/-- What has been fed has run over the segments. In the middle of a
block the chaining value is that of a block which is not complete, and
nothing is said of it. -/
theorem Fed.overSegments {cipher : Block → Block} {mac : CbcMac}
    (h : Fed cipher calls mac) :
    OverSegments cipher calls mac where
  filled_eq := h.filled
  filled_eq_zero_of_pad hlast := by
    obtain ⟨before, rfl⟩ := List.getLast?_eq_some_iff.mp hlast
    rw [fed_iff (segments_pad before)] at h
    exact h.filled
  chain_eq hfilled := by
    rw [blocks_eq]
    exact (h.aligned (h.filled.symm.trans hfilled)).chain_eq

/-- **The chain over bytes that arrive in any calls is the chain over
the blocks of their segments**, for every function on blocks. Take any
place that may have held a chain, and any calls after one that begins a
chain there. In the range of bytes in which it runs the chain is found
without a fault as it has been computed; while no block is under way, as
after every `pad`, its chaining value is the chain over the blocks of
the segments. It depends on the segments alone, and not on what has been
there or how they are cut into calls; and a `pad` at a block boundary
makes no difference to anything that comes after it. -/
theorem chain_is_over_segments (cipher : BlockCipher) (left : CbcMac)
    (calls : List Call) :
    Packed.run cipher left.pack (.start :: calls)
        = .ok (left.run cipher.encrypt (.start :: calls)).pack
      ∧ OverSegments cipher.encrypt calls
        (left.run cipher.encrypt (.start :: calls))
      ∧ (blocks calls).flatMap Block.toBytes
        = (segments calls).flatMap Block.padded
      ∧ (∀ (left' : CbcMac) (calls' : List Call),
          segments calls' = segments calls →
          left'.run cipher.encrypt (.start :: calls')
            = left.run cipher.encrypt (.start :: calls))
      ∧ (16 ∣ (openSegment calls).length → ∀ later : List Call,
          left.run cipher.encrypt (.start :: calls ++ .pad :: later)
              = left.run cipher.encrypt (.start :: calls ++ later)
            ∧ blocks (calls ++ .pad :: later) = blocks (calls ++ later)) := by
  have hfed := fed_run cipher.encrypt left calls
  refine ⟨pack_run_start cipher left calls, hfed.overSegments,
    flatMap_toBytes_blocks calls,
    fun left' calls' => hfed.unique (fed_run cipher.encrypt left' calls'),
    fun hboundary later => ⟨?_, blocks_append_pad hboundary later⟩⟩
  have hfilled : (left.run cipher.encrypt (.start :: calls)).filled = 0 :=
    hfed.filled.trans (Nat.mod_eq_zero_of_dvd hboundary)
  rw [run_append, run_append, run_cons,
    step_pad_of_filled_eq_zero cipher.encrypt hfilled]

/-- Bytes of an abandoned chain, one segment in two pieces, an empty
segment, and one that fills its block. -/
theorem chain_is_over_segments_begun_twice :
    let cipher : BlockCipher := ⟨"successor", fun b => b.map (· + 1)⟩
    let left : CbcMac := ⟨Block.ofBytes [5, 6, 7], 3⟩
    let full : List Call := [.update (Bytes.zeros 16)]
    let calls : List Call :=
      [.update [9], .start, .update [1], .update [2, 3], .pad, .pad] ++ full
    Packed.run cipher left.pack (.start :: calls)
        = .ok ⟨(ofBlocks cipher.encrypt
            [Block.ofBytes [1, 2, 3], Block.zero]).toBytes, 0⟩
      ∧ start.run cipher.encrypt
        (.start :: [.update [1, 2, 3], .pad, .pad] ++ full)
          = left.run cipher.encrypt (.start :: calls)
      ∧ left.run cipher.encrypt (.start :: calls ++ [.pad, .update [4]])
        = left.run cipher.encrypt (.start :: calls ++ [.update [4]]) := by
  intro cipher left full calls
  obtain ⟨hpacked, hover, -, hsegments, hpad⟩ :=
    chain_is_over_segments cipher left calls
  have hfilled : (left.run cipher.encrypt (.start :: calls)).filled = 0 :=
    hover.filled_eq.trans (by decide)
  have hblocks : blocks calls = [Block.ofBytes [1, 2, 3], Block.zero] := by
    have hparts : segments calls = [[1, 2, 3], [], Bytes.zeros 16] := by decide
    have hshort : Block.split [1, 2, 3] = [Block.ofBytes [1, 2, 3]] :=
      Block.split_of_length_le (by decide) (by decide)
    have hfull : Block.split (Bytes.zeros 16) = [Block.zero] :=
      Block.split_of_length_le (by decide) (by decide)
    rw [blocks, hparts, List.flatMap_cons, List.flatMap_cons, List.flatMap_cons,
      hshort, hfull,
      Block.split_nil]
    rfl
  refine ⟨?_, hsegments start _ (by decide), (hpad (by decide) [.update [4]]).1⟩
  rw [hpacked, pack, hover.chain_eq hfilled, hfilled, hblocks]

end CbcMac

/-! ## The chain of a message -/

namespace Aead.Ccm.Packed

open Checked

/-- The calls for the associated data of a message: behind its length,
and only if there is any. Length and data are one segment. -/
def aadCalls (p : Packed) : List CbcMac.Call :=
  if p.aad.isEmpty then []
  else [.update (aadHeader p.aad.length), .update p.aad.toList, .pad]

/-- **The calls for a message**, with the associated data between its
opening block and its plaintext. -/
def macCalls (p : Packed) (opening : Bytes) : List CbcMac.Call :=
  .update opening :: p.aadCalls ++ [.update p.message.toList, .pad]

/-- The associated data is taken in by its calls, where there is any. -/
theorem macAad_eq_run (p : Packed) (chain : CbcMac.Packed) :
    p.macAad chain = chain.run p.cipher p.aadCalls := by
  unfold macAad aadCalls
  by_cases hempty : p.aad.isEmpty
  · rw [if_pos hempty, if_pos hempty]
    rfl
  · obtain ⟨header, length, hencode, hread⟩ :=
      exists_encodeAadLength p.aad.length
    rw [if_neg hempty, if_neg hempty, hencode, ok_bind]
    dsimp only
    rw [hread, ok_bind]
    exact bind_congr fun chain => bind_congr fun chain => (bind_pure _).symm

/-- **The chain of a message is one that is begun in its range** and fed
the calls for it, whatever the range has held. -/
theorem mac_eq_run (p : Packed) (opening state : Bytes) (filled : Nat) :
    p.mac opening state
      = CbcMac.Packed.run p.cipher ⟨state, filled⟩
        (.start :: p.macCalls opening) := by
  show p.mac opening state
    = ((CbcMac.Packed.start state).update p.cipher opening
      >>= fun chain =>
        chain.run p.cipher (p.aadCalls ++ [.update p.message.toList, .pad]))
  refine bind_congr fun chain => ?_
  rw [macAad_eq_run, CbcMac.Packed.run_append]
  exact bind_congr fun chain => bind_congr fun chain => (bind_pure _).symm

end Aead.Ccm.Packed

end Strongbox
