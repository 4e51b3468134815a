import FileWarden.Source.Replay
import Mathlib

/-!
# Shared replays

Several readers may share a replay, each with a token that is its own or that others hold too. At
any time somebody may read, have a process blocked, close the replay or cancel a token.

- **Operations** (`Op`, `Shared.step`): what an operation does to the replay and to the tokens. A
  read that has to wait (`parks`) changes nothing, now or later.
- **One read** (`Shared.Reads`): the ways a read goes, of which the first that applies is taken
  (`Shared.reads_step`). Every law of reads is proved from these.
- **One operation, then all**: what an operation does to the replay is said once (`replay_step`,
  `handedOut_step`). The laws of `run` follow by induction on the operations (`handedOut_run`,
  `settings_run`, `closed_run`, `blocks_run`).
- **Closed replays** (`run_of_closed`): nothing gets past the close.
- **Totals** (`totalCalls_eq_length`, `totalCalls_eq_finsum`): the tally of a replay counts every
  block that was asked for once.
- **All of it** (`shared_replay_keeps_account`).
-/

namespace FileWarden
namespace Replay

variable {ι : Type} {r : Replay} {t : Token}

/-! ## Reads -/

/-- Whether a read has to wait until somebody cancels its token. -/
def parks (r : Replay) (t : Token) : Bool :=
  match (r.poll t).1 with
  | .parked => true
  | .answer _ => false

theorem next_of_closed (hclosed : r.closed = true) :
    r.next t = ⟨.error .closed, t, r⟩ ∧ r.parks t = false := by
  simp [next, parks, poll, hclosed]

theorem next_of_cancelled (hopen : r.closed = false) (ht : t.cancelled = true) :
    r.next t = ⟨.error .cancelled, t, r⟩ ∧ r.parks t = false := by
  simp [next, parks, poll, hopen, ht]

theorem next_of_pending (hopen : r.closed = false) (ht : t.cancelled = false) {e : Event}
    {rest : List Event} (hpending : r.pending = e :: rest) :
    r.next t = ⟨.ok e, t, { r with pending := rest }⟩ ∧ r.parks t = false := by
  simp [next, parks, poll, hopen, ht, hpending]

/-- At its end, a replay cancels the token of its reader, or has it wait. -/
theorem next_of_drained (hopen : r.closed = false) (ht : t.cancelled = false)
    (hpending : r.pending = []) :
    r.next t = ⟨.error .cancelled, t.cancel, r⟩ ∧ r.parks t = decide (r.atEnd = .wait) := by
  cases hend : r.atEnd <;> simp [next, parks, poll, hopen, ht, hpending, hend]

/-! ## Blocks -/

theorem block_of_closed (hclosed : r.closed = true) (p : Pid) :
    r.block p = (.error .closed, r) := by
  simp [Replay.block, hclosed]

theorem block_of_open (hopen : r.closed = false) (p : Pid) :
    r.block p =
      (if r.rejecting then .error (.block p "enforcement map rejected update") else .ok (),
        { r with calls := r.calls ++ [p] }) := by
  simp only [Replay.block, hopen, Bool.false_eq_true, if_false]
  split <;> rfl

theorem isBlocked_iff {p : Pid} : r.isBlocked p = true ↔ r.rejecting = false ∧ p ∈ r.calls := by
  simp [isBlocked, callsFor, List.count_pos_iff, and_comm]

theorem nodup_eraseDups (ps : List Pid) : ps.eraseDups.Nodup := by
  -- Each process that is kept takes its repeats out of the rest, so the length decides.
  induction hlength : ps.length using Nat.strong_induction_on generalizing ps with
  | _ n ih =>
    cases ps with
    | nil => simp
    | cons p ps =>
      rw [List.eraseDups_cons, List.nodup_cons]
      refine ⟨by simp, ih _ ?_ _ rfl⟩
      rw [← hlength, List.length_cons]
      exact Nat.lt_succ_of_le (List.length_filter_le ..)

/-- The tally has each process that was to be blocked, once. -/
theorem totalCalls_eq_sum (r : Replay) :
    r.totalCalls = ∑ p ∈ r.calls.toFinset, r.callsFor p := by
  have hkeys : r.calls.toFinset = r.calls.eraseDups.toFinset := by
    ext p
    simp
  have hfold : r.totalCalls = (r.tally.map (·.2)).sum := by
    rw [List.sum_eq_foldl, List.foldl_map]
    rfl
  rw [hfold, hkeys, List.sum_toFinset _ (nodup_eraseDups r.calls), tally, List.map_map]
  rfl

theorem totalCalls_eq_length (r : Replay) : r.totalCalls = r.calls.length := by
  rw [totalCalls_eq_sum]
  exact List.sum_toFinset_count_eq_length r.calls

theorem totalCalls_eq_finsum (r : Replay) : r.totalCalls = ∑ᶠ p, r.callsFor p := by
  have hsupport : Function.support r.callsFor ⊆ r.calls.toFinset := by
    intro p hp
    have hpos : 0 < r.callsFor p := Nat.pos_of_ne_zero hp
    simpa using List.count_pos_iff.mp hpos
  rw [finsum_eq_sum_of_support_subset _ hsupport, totalCalls_eq_sum]

/-! ## Operations -/

/-- An operation. The tokens have names `ι`. -/
inductive Op (ι : Type) where
  | next (token : ι)
  | block (p : Pid)
  | close
  | cancel (token : ι)

/-- An operation that was done, with its answer. -/
inductive Deed (ι : Type) where
  | next (token : ι) (answer : Except SourceError Event)
  | block (p : Pid) (answer : Except SourceError Unit)
  | close (answer : Except SourceError Unit)
  | cancel (token : ι)

namespace Op

/-- Whether an operation closes the replay. -/
def isClose : Op ι → Bool
  | close => true
  | next _ => false
  | block _ => false
  | cancel _ => false

/-- The process that an operation asks to block, if it does. -/
def pid? : Op ι → Option Pid
  | block p => some p
  | next _ => none
  | close => none
  | cancel _ => none

/-- The processes that operations ask to block before they close the replay, in order. -/
def blocksBeforeClose (ops : List (Op ι)) : List Pid :=
  (ops.takeWhile (!·.isClose)).filterMap pid?

theorem blocksBeforeClose_cons (op : Op ι) (ops : List (Op ι)) :
    blocksBeforeClose (op :: ops) =
      if op.isClose then [] else op.pid?.toList ++ blocksBeforeClose ops := by
  rw [blocksBeforeClose, List.takeWhile_cons]
  cases op <;> rfl

theorem pid?_of_isClose {op : Op ι} (h : op.isClose = true) : op.pid? = none := by
  cases op <;> simp_all [isClose, pid?]

end Op

namespace Deed

/-- The event that an operation handed out, if it did. -/
def event? : Deed ι → Option Event
  | next _ (.ok e) => some e
  | next _ (.error _) => none
  | block .. => none
  | close _ => none
  | cancel _ => none

/-- The events that were handed out, in order. -/
def handedOut (deeds : List (Deed ι)) : List Event := deeds.filterMap event?

/-- A read or a block that is answered as on a closed replay. -/
def Refused : Deed ι → Prop
  | next _ answer => answer = .error .closed
  | block _ answer => answer = .error .closed
  | close _ => True
  | cancel _ => True

end Deed

/-- A replay and the tokens of its readers. -/
structure Shared (ι : Type) where
  replay : Replay
  tokens : ι → Token

namespace Shared

variable [DecidableEq ι] {s : Shared ι} {i : ι}

/-- What an operation leaves. A read that waits leaves everything as it is, and ends as cancelled
when its token is, whatever else happens before. -/
def step (s : Shared ι) : Op ι → Shared ι
  | .next i =>
    if s.replay.parks (s.tokens i) then s
    else
      let reading := s.replay.next (s.tokens i)
      ⟨reading.source, Function.update s.tokens i reading.token⟩
  | .block p => { s with replay := (s.replay.block p).2 }
  | .close => { s with replay := s.replay.close.2 }
  | .cancel i => { s with tokens := Function.update s.tokens i (s.tokens i).cancel }

omit [DecidableEq ι] in
/-- An operation with the answer that it gets. A read that waits gets it in the end. -/
def deed (s : Shared ι) : Op ι → Deed ι
  | .next i => .next i (s.replay.next (s.tokens i)).answer
  | .block p => .block p (s.replay.block p).1
  | .close => .close s.replay.close.1
  | .cancel i => .cancel i

/-- What operations leave, done one after the other. -/
def run (s : Shared ι) (ops : List (Op ι)) : Shared ι := ops.foldl step s

/-- Operations that are done one after the other, with their answers. -/
def deeds (s : Shared ι) : List (Op ι) → List (Deed ι)
  | [] => []
  | op :: ops => s.deed op :: deeds (s.step op) ops

/-- The ways a read with the token `i` goes: its answer, and what it leaves. -/
inductive Reads (s : Shared ι) (i : ι) : Except SourceError Event → Shared ι → Prop
  | closed : s.replay.closed = true → Reads s i (.error .closed) s
  | cancelled : s.replay.closed = false → (s.tokens i).cancelled = true →
    Reads s i (.error .cancelled) s
  | event {e : Event} {rest : List Event} : s.replay.closed = false →
    (s.tokens i).cancelled = false → s.replay.pending = e :: rest →
    Reads s i (.ok e) { s with replay := { s.replay with pending := rest } }
  | drained : s.replay.closed = false → (s.tokens i).cancelled = false → s.replay.pending = [] →
    s.replay.atEnd = .cancelReader → Reads s i (.error .cancelled)
      { s with tokens := Function.update s.tokens i (s.tokens i).cancel }
  | parked : s.replay.closed = false → (s.tokens i).cancelled = false → s.replay.pending = [] →
    s.replay.atEnd = .wait → Reads s i (.error .cancelled) s

/-- A read goes one of the ways. -/
theorem reads_step (s : Shared ι) (i : ι) :
    s.Reads i (s.replay.next (s.tokens i)).answer (s.step (.next i)) := by
  have hsame : (⟨s.replay, Function.update s.tokens i (s.tokens i)⟩ : Shared ι) = s := by
    rw [Function.update_eq_self]
  cases hclosed : s.replay.closed with
  | true =>
    obtain ⟨hnext, hparks⟩ := next_of_closed (t := s.tokens i) hclosed
    simpa [step, hnext, hparks, hsame] using .closed hclosed
  | false =>
    cases ht : (s.tokens i).cancelled with
    | true =>
      obtain ⟨hnext, hparks⟩ := next_of_cancelled hclosed ht
      simpa [step, hnext, hparks, hsame] using .cancelled hclosed ht
    | false =>
      cases hpending : s.replay.pending with
      | cons e rest =>
        obtain ⟨hnext, hparks⟩ := next_of_pending hclosed ht hpending
        simpa [step, hnext, hparks, hsame] using .event hclosed ht hpending
      | nil =>
        obtain ⟨hnext, hparks⟩ := next_of_drained hclosed ht hpending
        cases hend : s.replay.atEnd with
        | wait => simpa [step, hnext, hparks, hend] using .parked hclosed ht hpending hend
        | cancelReader =>
          simpa [step, hnext, hparks, hend] using .drained hclosed ht hpending hend

theorem run_cons (s : Shared ι) (op : Op ι) (ops : List (Op ι)) :
    s.run (op :: ops) = (s.step op).run ops := rfl

namespace Reads

variable {answer : Except SourceError Event} {left : Shared ι}

/-- A read leaves the replay as it is, but for the events that are left. -/
theorem replay_eq (h : s.Reads i answer left) :
    left.replay = { s.replay with pending := left.replay.pending } := by
  cases h <;> rfl

theorem handedOut (h : s.Reads i answer left) :
    (Deed.next i answer).event?.toList ++ left.replay.pending = s.replay.pending := by
  cases h with
  | event _ _ hpending => exact hpending.symm
  | closed | cancelled | drained | parked => rfl

/-- A read takes the first event that is left if nothing keeps it from that, and takes none
otherwise. -/
theorem takes (h : s.Reads i answer left) :
    if s.replay.closed = false ∧ (s.tokens i).cancelled = false ∧ s.replay.pending ≠ [] then
      ∃ e, answer = .ok e ∧ s.replay.pending = e :: left.replay.pending
    else (∃ err, answer = .error err) ∧ left.replay.pending = s.replay.pending := by
  cases h with
  | event hopen ht hpending => simp [hopen, ht, hpending]
  | closed hclosed => simp [hclosed]
  | cancelled _ ht => simp [ht]
  | drained _ _ hpending => simp [hpending]
  | parked _ _ hpending => simp [hpending]

end Reads

/-- At the end of a replay that cancels its reader, a read cancels its own token. -/
theorem step_of_drained (hend : s.replay.atEnd = .cancelReader) (hopen : s.replay.closed = false)
    (hpending : s.replay.pending = []) (i : ι) :
    (s.replay.next (s.tokens i)).answer = .error .cancelled ∧
      s.step (.next i) = ⟨s.replay, Function.update s.tokens i (s.tokens i).cancel⟩ := by
  cases ht : (s.tokens i).cancelled with
  | true =>
    obtain ⟨hnext, hparks⟩ := next_of_cancelled hopen ht
    have hcancel : (s.tokens i).cancel = s.tokens i := by
      rw [Token.cancel, ← ht]
    simp [step, hnext, hparks, hcancel]
  | false =>
    obtain ⟨hnext, hparks⟩ := next_of_drained hopen ht hpending
    simp [step, hnext, hparks, hend]

/-- What an operation does to the replay: it may take events, a block is noted up to the close, and
nothing else changes. -/
theorem replay_step (s : Shared ι) (op : Op ι) : (s.step op).replay =
    ⟨(s.step op).replay.pending, s.replay.atEnd, s.replay.rejecting,
      s.replay.calls ++ if s.replay.closed then [] else op.pid?.toList,
      s.replay.closed || op.isClose⟩ := by
  cases op with
  | next i =>
    rw [(s.reads_step i).replay_eq]
    simp [Op.pid?, Op.isClose]
  | block p =>
    obtain ⟨⟨pending, atEnd, rejecting, calls, closed⟩, tokens⟩ := s
    cases closed <;> simp [step, block_of_closed, block_of_open, Op.pid?, Op.isClose]
  | close => simp [step, Replay.close, Op.pid?, Op.isClose]
  | cancel i => simp [step, Op.pid?, Op.isClose]

theorem closed_step (s : Shared ι) (op : Op ι) :
    (s.step op).replay.closed = (s.replay.closed || op.isClose) :=
  congrArg Replay.closed (s.replay_step op)

/-- A replay goes to its end and answers blocks as it did at the start. -/
theorem settings_step (s : Shared ι) (op : Op ι) :
    (s.step op).replay.atEnd = s.replay.atEnd ∧
      (s.step op).replay.rejecting = s.replay.rejecting := by
  rw [replay_step]
  exact ⟨rfl, rfl⟩

theorem calls_step (s : Shared ι) (op : Op ι) : (s.step op).replay.calls =
    s.replay.calls ++ if s.replay.closed then [] else op.pid?.toList :=
  congrArg Replay.calls (s.replay_step op)

omit [DecidableEq ι] in
/-- A block succeeds on an open replay that does not reject it. -/
theorem granted_step (s : Shared ι) (op : Op ι) (p : Pid) : s.deed op = .block p (.ok ()) ↔
    s.replay.closed = false ∧ s.replay.rejecting = false ∧ op.pid? = some p := by
  cases op with
  | block q =>
    cases hclosed : s.replay.closed <;> cases hrejecting : s.replay.rejecting <;>
      simp [deed, hclosed, hrejecting, block_of_closed, block_of_open, Op.pid?]
  | next i => simp [deed, Op.pid?]
  | close => simp [deed, Op.pid?]
  | cancel i => simp [deed, Op.pid?]

/-- An operation takes the first event that is left, and hands it out, or takes none. -/
theorem handedOut_step (s : Shared ι) (op : Op ι) :
    (s.deed op).event?.toList ++ (s.step op).replay.pending = s.replay.pending := by
  cases op with
  | next i => exact (s.reads_step i).handedOut
  | block p =>
    cases hclosed : s.replay.closed <;>
      simp [deed, step, hclosed, block_of_closed, block_of_open, Deed.event?]
  | close => rfl
  | cancel i => rfl

/-- On a closed replay, an operation may cancel its token, and does nothing else. -/
theorem step_of_closed (hclosed : s.replay.closed = true) (op : Op ι) :
    (s.step op).replay = s.replay ∧ (s.deed op).Refused ∧
    ∀ i, ((s.step op).tokens i).cancelled = true ↔
      (s.tokens i).cancelled = true ∨ op = .cancel i := by
  cases op with
  | next j =>
    obtain ⟨hnext, hparks⟩ := next_of_closed (t := s.tokens j) hclosed
    simp [step, deed, hnext, hparks, Deed.Refused]
  | block p => simp [step, deed, block_of_closed hclosed, Deed.Refused]
  | close => simp [step, deed, Replay.close, Deed.Refused, ← hclosed]
  | cancel j =>
    refine ⟨rfl, trivial, fun i => ?_⟩
    by_cases hi : i = j
    · subst hi
      simp [step, Token.cancel]
    · simp [step, hi, Ne.symm hi]

/-! ## All operations -/

theorem handedOut_run (s : Shared ι) (ops : List (Op ι)) :
    Deed.handedOut (s.deeds ops) ++ (s.run ops).replay.pending = s.replay.pending := by
  induction ops generalizing s with
  | nil => rfl
  | cons op ops ih =>
    have hsplit : Deed.handedOut (s.deeds (op :: ops)) =
        (s.deed op).event?.toList ++ Deed.handedOut ((s.step op).deeds ops) := by
      simp only [deeds, Deed.handedOut, List.filterMap_cons]
      cases (s.deed op).event? <;> rfl
    rw [hsplit, run_cons, List.append_assoc, ih, handedOut_step]

theorem settings_run (s : Shared ι) (ops : List (Op ι)) :
    (s.run ops).replay.atEnd = s.replay.atEnd ∧
      (s.run ops).replay.rejecting = s.replay.rejecting := by
  induction ops generalizing s with
  | nil => exact ⟨rfl, rfl⟩
  | cons op ops ih =>
    obtain ⟨hend, hrejecting⟩ := s.settings_step op
    obtain ⟨hend', hrejecting'⟩ := ih (s.step op)
    exact ⟨hend'.trans hend, hrejecting'.trans hrejecting⟩

theorem closed_run (s : Shared ι) (ops : List (Op ι)) :
    (s.run ops).replay.closed = (s.replay.closed || ops.any Op.isClose) := by
  induction ops generalizing s with
  | nil => exact (Bool.or_false _).symm
  | cons op ops ih => rw [run_cons, ih, closed_step, List.any_cons, Bool.or_assoc]

/-- A closed replay stays as it is, whatever is done with it, and refuses all reads and blocks. -/
theorem run_of_closed (hclosed : s.replay.closed = true) (ops : List (Op ι)) :
    (s.run ops).replay = s.replay ∧ (∀ d ∈ s.deeds ops, d.Refused) ∧
    ∀ i, ((s.run ops).tokens i).cancelled = true ↔
      (s.tokens i).cancelled = true ∨ .cancel i ∈ ops := by
  induction ops generalizing s with
  | nil => simp [run, deeds]
  | cons op ops ih =>
    obtain ⟨hreplay, hrefused, htokens⟩ := step_of_closed hclosed op
    obtain ⟨hreplay', hrefused', htokens'⟩ := ih (s := s.step op) (by rw [hreplay, hclosed])
    refine ⟨hreplay'.trans hreplay, List.forall_mem_cons.mpr ⟨hrefused, hrefused'⟩, fun i => ?_⟩
    rw [run_cons, htokens', htokens, List.mem_cons, or_assoc, eq_comm (a := op)]

/-- Up to its close, a replay notes the blocks that it is asked for, and accepts them unless it
rejects all. -/
theorem blocks_run (hopen : s.replay.closed = false) (ops : List (Op ι)) :
    (s.run ops).replay.calls = s.replay.calls ++ Op.blocksBeforeClose ops ∧
    ∀ p, .block p (.ok ()) ∈ s.deeds ops ↔
      s.replay.rejecting = false ∧ p ∈ Op.blocksBeforeClose ops := by
  induction ops generalizing s with
  | nil => simp [run, deeds, Op.blocksBeforeClose]
  | cons op ops ih =>
    have hfirst (p : Pid) := s.granted_step op p
    simp only [hopen, true_and] at hfirst
    simp only [run_cons, deeds, List.mem_cons, eq_comm (b := s.deed op), hfirst,
      Op.blocksBeforeClose_cons]
    cases hclose : op.isClose with
    | true =>
      obtain ⟨hreplay, hrefused, -⟩ :=
        run_of_closed (s := s.step op) (by rw [closed_step, hclose, Bool.or_true]) ops
      have hnone (p : Pid) : .block p (.ok ()) ∉ (s.step op).deeds ops :=
        fun hp => nomatch hrefused _ hp
      simp [hreplay, calls_step, hopen, Op.pid?_of_isClose hclose, hnone]
    | false =>
      have hstep : (s.step op).replay.closed = false := by rw [closed_step, hopen, hclose]; rfl
      obtain ⟨hcalls, hgranted⟩ := ih hstep
      refine ⟨by simp [hcalls, calls_step, hopen], fun p => ?_⟩
      rw [hgranted, (s.settings_step op).2, ← and_or_left]
      simp

/-! ## All of it -/

end Shared

open Shared

/-- A replay of events from which nobody has read yet. -/
def unused (events : List Event) (rejecting : Bool) : AtEnd → Replay
  | .wait => waiting events rejecting
  | .cancelReader => untilDrained events rejecting

/-- **A shared replay keeps account.** Whatever is done with it, in any order and with any tokens,
the events handed out and those left are the events it began with. Once closed it stays as it is.
Its calls add up to the blocks that were asked for before, and a process is blocked if one of its
blocks succeeded. -/
theorem shared_replay_keeps_account [DecidableEq ι] (atEnd : AtEnd) (events : List Event)
    (rejecting : Bool) (tokens : ι → Token) (ops : List (Op ι)) :
    let start : Shared ι := ⟨unused events rejecting atEnd, tokens⟩
    let s := start.run ops
    Deed.handedOut (start.deeds ops) ++ s.replay.pending = events ∧
    (s.replay.closed = true ↔ .close ∈ ops) ∧
    (∀ i, let answer := (s.replay.next (s.tokens i)).answer
      let left := (s.step (.next i)).replay.pending
      if s.replay.closed = false ∧ (s.tokens i).cancelled = false ∧ s.replay.pending ≠ [] then
        ∃ e, answer = .ok e ∧ s.replay.pending = e :: left
      else (∃ err, answer = .error err) ∧ left = s.replay.pending) ∧
    (.close ∈ ops → ∀ more, (s.run more).replay = s.replay ∧
      (∀ d ∈ s.deeds more, d.Refused) ∧
      ∀ i, ((s.run more).tokens i).cancelled = true ↔
        (s.tokens i).cancelled = true ∨ .cancel i ∈ more) ∧
    (atEnd = .cancelReader → s.replay.closed = false → s.replay.pending = [] → ∀ i,
      (s.replay.next (s.tokens i)).answer = .error .cancelled ∧
      s.step (.next i) = ⟨s.replay, Function.update s.tokens i (s.tokens i).cancel⟩) ∧
    s.replay.totalCalls = ∑ᶠ p, s.replay.callsFor p ∧
    s.replay.totalCalls = (Op.blocksBeforeClose ops).length ∧
    ∀ p, s.replay.isBlocked p = true ↔ .block p (.ok ()) ∈ start.deeds ops := by
  intro start s
  have hopen : start.replay.closed = false := by cases atEnd <;> rfl
  have hpending : start.replay.pending = events := by cases atEnd <;> rfl
  have hnone : start.replay.calls = [] := by cases atEnd <;> rfl
  have hatEnd : start.replay.atEnd = atEnd := by cases atEnd <;> rfl
  obtain ⟨hend, hrejecting⟩ := start.settings_run ops
  obtain ⟨hcalls, hgranted⟩ := blocks_run hopen ops
  rw [hnone, List.nil_append] at hcalls
  have hclosed : s.replay.closed = true ↔ .close ∈ ops := by
    rw [closed_run, hopen, Bool.false_or, List.any_eq_true]
    refine ⟨fun ⟨op, hop, hclose⟩ => ?_, fun hclose => ⟨_, hclose, rfl⟩⟩
    cases op with
    | close => exact hop
    | next | block | cancel => cases hclose
  refine ⟨?_, hclosed, fun i => (s.reads_step i).takes,
    fun hclose => run_of_closed (hclosed.mpr hclose),
    fun hcancels => step_of_drained ((hend.trans hatEnd).trans hcancels),
    s.replay.totalCalls_eq_finsum, ?_, fun p => ?_⟩
  · rw [← hpending]
    exact start.handedOut_run ops
  · rw [totalCalls_eq_length, hcalls]
  · rw [isBlocked_iff, hrejecting, hcalls, hgranted]

end Replay
end FileWarden
