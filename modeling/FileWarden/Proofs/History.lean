import FileWarden.Engine
import FileWarden.Proofs.Ledger

/-!
# The ledger of a run

Events are decided on one after the other (`Rules.run`), with any block: one that keeps a state of
its own and fails as it likes.

- **History** (`violations`): how many of some events are violations of a process. It is a number
  without bound, where a count stops at `2 ^ 32 - 1`.
- **Invariant** (`Reflects es l`): the ledger `l` holds what `es` tell, and nothing else. One event
  keeps it (`Reflects.judge`), and so does a run (`Reflects.run`), whether blocks fail or not.
- **Verdicts** (`verdict`): what an event means is told by the events before it alone. A process
  crosses the threshold at one event, which is its threshold-th violation.
- **Queries** (`queries_after_run`): what a ledger answers after a run from the empty ledger.
-/

namespace FileWarden

/-- What becomes of events that are decided on one after the other: each event's answer and notices,
and the ledger and the source after them. -/
structure Run (σ : Type) where
  answers : List (Except BlockFailure Outcome × List Notice)
  ledger : Ledger
  source : σ

namespace Rules

variable {σ : Type} {r : Rules} {l : Ledger} {es : List Event} {e : Event}

/-- Decides on events in order, with a block that is shown the ledger. -/
def runSeeing (r : Rules) (block : Ledger → σ → Pid → Except SourceError Unit × σ) (l : Ledger)
    (s : σ) : List Event → Run σ
  | [] => ⟨[], l, s⟩
  | e :: es =>
    let p := r.processSeeing block l s e
    let rest := runSeeing r block p.ledger p.source es
    { rest with answers := (p.result, p.notices) :: rest.answers }

/-- Decides on events in order. -/
def run (r : Rules) (block : σ → Pid → Except SourceError Unit × σ) (l : Ledger) (s : σ) :
    List Event → Run σ
  | [] => ⟨[], l, s⟩
  | e :: es =>
    let p := r.process block l s e
    let rest := run r block p.ledger p.source es
    { rest with answers := (p.result, p.notices) :: rest.answers }

theorem run_eq_runSeeing (block : σ → Pid → Except SourceError Unit × σ) (l : Ledger) (s : σ)
    (es : List Event) : r.run block l s es = r.runSeeing (fun _ => block) l s es := by
  induction es generalizing l s with
  | nil => rfl
  | cons e es ih => simp only [run, runSeeing, process, ih]

theorem runSeeing_append (block : Ledger → σ → Pid → Except SourceError Unit × σ) (l : Ledger)
    (s : σ) (es fs : List Event) :
    r.runSeeing block l s (es ++ fs) =
      let first := r.runSeeing block l s es
      let rest := r.runSeeing block first.ledger first.source fs
      ⟨first.answers ++ rest.answers, rest.ledger, rest.source⟩ := by
  induction es generalizing l s with
  | nil => rfl
  | cons e es ih => simp only [List.cons_append, runSeeing, ih]

/-! ## Violations among events -/

/-- How many of the events are violations of a process. -/
def violations (r : Rules) (p : Pid) (es : List Event) : Nat :=
  es.countP fun e => e.pid = p && r.violatedBy e

@[simp] theorem violations_nil (r : Rules) (p : Pid) : r.violations p [] = 0 := rfl

theorem violations_concat (r : Rules) (p : Pid) (es : List Event) (e : Event) :
    r.violations p (es ++ [e]) =
      r.violations p es + if e.pid = p ∧ r.violatedBy e = true then 1 else 0 := by
  simp [violations, List.countP_append, List.countP_singleton]

/-- What an event means after the events `before`. -/
def verdict (r : Rules) (before : List Event) (e : Event) : Verdict :=
  if !r.target.admits e.pid then .notTargeted
  else if !r.policy.disallows e.path then .allowed
  else
    let n := r.violations e.pid before + 1
    if n = r.threshold.toNat then .crossed r.threshold
    else .counted (UInt32.ofNat (min n (2 ^ 32 - 1)))

theorem threshold_toNat_pos (r : Rules) : 0 < r.threshold.toNat := by
  refine Nat.pos_of_ne_zero fun h => r.threshold_pos ?_
  exact UInt32.toNat_inj.mp h

/-! ## One event -/

theorem violatedBy_iff {r : Rules} {e : Event} :
    r.violatedBy e = true ↔ r.target.admits e.pid = true ∧ r.policy.disallows e.path = true := by
  simp [violatedBy]

theorem judge_of_not_admits (h : r.target.admits e.pid = false) :
    r.judge l e = (.notTargeted, l) := by
  simp [judge, h]

theorem judge_of_allowed (ha : r.target.admits e.pid = true)
    (hd : r.policy.disallows e.path = false) : r.judge l e = (.allowed, l) := by
  simp [judge, ha, hd]

theorem judge_of_counted (he : r.violatedBy e = true)
    (h : (l.record e.pid).count e.pid < r.threshold ∨ l.isBlocked e.pid = true) :
    r.judge l e = (.counted ((l.record e.pid).count e.pid), l.record e.pid) := by
  obtain ⟨ha, hd⟩ := violatedBy_iff.mp he
  simp only [judge, ha, hd, Bool.not_true, Bool.false_eq_true, ↓reduceIte]
  by_cases hlt : (l.record e.pid).count e.pid < r.threshold
  · rw [if_pos hlt]
  · have hb : l.isBlocked e.pid = true := h.resolve_left hlt
    rw [if_neg hlt]
    simp [Ledger.mark, hb]

theorem judge_of_crossed (he : r.violatedBy e = true)
    (ht : r.threshold ≤ (l.record e.pid).count e.pid) (hb : l.isBlocked e.pid = false) :
    r.judge l e =
      (.crossed ((l.record e.pid).count e.pid), ((l.record e.pid).mark e.pid).2) := by
  obtain ⟨ha, hd⟩ := violatedBy_iff.mp he
  simp only [judge, ha, hd, Bool.not_true, Bool.false_eq_true, ↓reduceIte]
  rw [if_neg (UInt32.not_lt.mpr ht)]
  simp [Ledger.mark, hb]

/-! ## One event keeps the invariant -/

/-- A ledger that holds what the events tell, and nothing else. -/
structure Reflects (r : Rules) (es : List Event) (l : Ledger) : Prop where
  count : ∀ p, (l.count p).toNat = min (r.violations p es) (2 ^ 32 - 1)
  offender : ∀ p, p ∈ l.offenderPids ↔ 0 < r.violations p es
  blocked : ∀ p, p ∈ l.blocked ↔ r.threshold.toNat ≤ r.violations p es

theorem reflects_empty (r : Rules) : r.Reflects [] .empty where
  count p := rfl
  offender p := by simp
  blocked p := by
    have := r.threshold_toNat_pos
    simp only [Ledger.empty, violations_nil]
    simp; omega

namespace Reflects

theorem count_record (h : r.Reflects es l) (he : r.violatedBy e = true) (q : Pid) :
    ((l.record e.pid).count q).toNat = min (r.violations q (es ++ [e])) (2 ^ 32 - 1) := by
  rw [Ledger.count_record, violations_concat]
  by_cases hq : q = e.pid
  · subst hq
    rw [if_pos rfl, Count.toNat_next, h.count, if_pos ⟨rfl, he⟩]
    omega
  · rw [if_neg hq, h.count, if_neg fun hc => hq hc.1.symm, Nat.add_zero]

theorem offender_record (h : r.Reflects es l) (he : r.violatedBy e = true) (q : Pid) :
    q ∈ (l.record e.pid).offenderPids ↔ 0 < r.violations q (es ++ [e]) := by
  rw [Ledger.mem_offenderPids_record, violations_concat, h.offender]
  by_cases hq : q = e.pid
  · simp [hq, he]
  · simp [hq, Ne.symm hq]

/-- An event that is no violation leaves the history of every process as it is. -/
theorem of_not_violated (h : r.Reflects es l) (he : r.violatedBy e = false) :
    r.Reflects (es ++ [e]) l := by
  have hv (p : Pid) : r.violations p (es ++ [e]) = r.violations p es := by
    simp [violations_concat, he]
  exact ⟨fun p => by rw [hv, h.count], fun p => by rw [hv, h.offender],
    fun p => by rw [hv, h.blocked]⟩

/-- A violation that is counted and blocks nobody: its process is at another count than the
threshold. -/
theorem record (h : r.Reflects es l) (he : r.violatedBy e = true)
    (hne : r.violations e.pid es + 1 ≠ r.threshold.toNat) :
    r.Reflects (es ++ [e]) (l.record e.pid) := by
  refine ⟨h.count_record he, h.offender_record he, fun q => ?_⟩
  change q ∈ l.blocked ↔ _
  rw [h.blocked, violations_concat]
  split
  · rename_i hq
    rw [← hq.1]
    omega
  · omega

/-- The violation with which its process crosses the threshold. -/
theorem record_mark (h : r.Reflects es l) (he : r.violatedBy e = true)
    (heq : r.violations e.pid es + 1 = r.threshold.toNat) :
    r.Reflects (es ++ [e]) ((l.record e.pid).mark e.pid).2 := by
  refine ⟨h.count_record he, h.offender_record he, fun q => ?_⟩
  simp only [Ledger.mark, Ledger.record, mem_insertPid]
  rw [h.blocked, violations_concat]
  by_cases hq : q = e.pid
  · simp [hq, he, heq]
  · simp [hq, Ne.symm hq]

/-- `judge` tells from the ledger what the history says, and the ledger after it reflects the
history with the event. -/
theorem judge (h : r.Reflects es l) (e : Event) :
    (r.judge l e).1 = r.verdict es e ∧ r.Reflects (es ++ [e]) (r.judge l e).2 := by
  by_cases ha : r.target.admits e.pid = true
  swap
  · rw [Bool.not_eq_true] at ha
    rw [judge_of_not_admits ha]
    exact ⟨by simp [verdict, ha], h.of_not_violated (by simp [violatedBy, ha])⟩
  by_cases hd : r.policy.disallows e.path = true
  swap
  · rw [Bool.not_eq_true] at hd
    rw [judge_of_allowed ha hd]
    exact ⟨by simp [verdict, ha, hd], h.of_not_violated (by simp [violatedBy, hd])⟩
  have he : r.violatedBy e = true := violatedBy_iff.mpr ⟨ha, hd⟩
  have ht := r.threshold.toNat_lt
  have hcount : ((l.record e.pid).count e.pid).toNat =
      min (r.violations e.pid es + 1) (2 ^ 32 - 1) := by
    rw [h.count_record he, violations_concat, if_pos ⟨rfl, he⟩]
  by_cases heq : r.violations e.pid es + 1 = r.threshold.toNat
  · have hcrossed : (l.record e.pid).count e.pid = r.threshold := by
      apply UInt32.toNat_inj.mp
      omega
    have hb : l.isBlocked e.pid = false := by
      rw [← Bool.not_eq_true, Ledger.isBlocked_iff, h.blocked]
      omega
    rw [judge_of_crossed he (by rw [hcrossed]; exact UInt32.le_refl _) hb]
    exact ⟨by simp [verdict, ha, hd, heq, hcrossed], h.record_mark he heq⟩
  · have hbelow : (l.record e.pid).count e.pid < r.threshold ∨ l.isBlocked e.pid = true := by
      rw [UInt32.lt_iff_toNat_lt, Ledger.isBlocked_iff, h.blocked, hcount]
      omega
    have hcounted : (l.record e.pid).count e.pid =
        UInt32.ofNat (min (r.violations e.pid es + 1) (2 ^ 32 - 1)) := by
      rw [← hcount, UInt32.ofNat_toNat]
    rw [judge_of_counted he hbelow]
    exact ⟨by simp [verdict, ha, hd, heq, hcounted], h.record he heq⟩

end Reflects

/-! ## A run -/

theorem processSeeing_ledger (block : Ledger → σ → Pid → Except SourceError Unit × σ) (l : Ledger)
    (s : σ) (e : Event) : (r.processSeeing block l s e).ledger = (r.judge l e).2 := by
  unfold processSeeing
  split <;> (try split) <;> simp_all

theorem run_concat_ledger (block : σ → Pid → Except SourceError Unit × σ) (l : Ledger) (s : σ)
    (es : List Event) (e : Event) :
    (r.run block l s (es ++ [e])).ledger = (r.judge (r.run block l s es).ledger e).2 := by
  simp only [run_eq_runSeeing, runSeeing_append, runSeeing, processSeeing_ledger]

theorem Reflects.runSeeing (h : r.Reflects es l)
    (block : Ledger → σ → Pid → Except SourceError Unit × σ) (s : σ) (fs : List Event) :
    r.Reflects (es ++ fs) (r.runSeeing block l s fs).ledger := by
  induction fs generalizing es l s with
  | nil => simpa [Rules.runSeeing] using h
  | cons f fs ih =>
    have hf : r.Reflects (es ++ [f]) (r.processSeeing block l s f).ledger := by
      rw [processSeeing_ledger]
      exact (h.judge f).2
    rw [List.append_cons]
    exact ih hf _

/-- A ledger reflects the events of a run that began with the empty ledger. -/
theorem reflects_run (r : Rules) (block : σ → Pid → Except SourceError Unit × σ) (s : σ)
    (es : List Event) : r.Reflects es (r.run block .empty s es).ledger := by
  rw [run_eq_runSeeing]
  exact r.reflects_empty.runSeeing _ s es

theorem Reflects.threshold_le_count (h : r.Reflects es l) (p : Pid) :
    r.threshold ≤ l.count p ↔ r.threshold.toNat ≤ r.violations p es := by
  have := r.threshold.toNat_lt
  rw [UInt32.le_iff_toNat_le, h.count]
  omega

/-- What a ledger answers after a run from the empty ledger, for every block and after every event:
the counts, who is blocked, and the totals. -/
theorem queries_after_run (r : Rules) (block : σ → Pid → Except SourceError Unit × σ) (s : σ)
    (es : List Event) :
    let l := (r.run block .empty s es).ledger
    (∀ p, (l.count p).toNat = min (r.violations p es) (2 ^ 32 - 1)) ∧
    (∀ p, l.isBlocked p = true ↔ r.threshold ≤ l.count p) ∧
    (l.blocked.Pairwise (· < ·) ∧ ∀ p, p ∈ l.blocked ↔ r.threshold ≤ l.count p) ∧
    (l.anyBlocked = true ↔ l.blocked ≠ []) ∧
    l.total.toNat = ∑ᶠ p : Pid, (l.count p).toNat ∧
    l.offenders = {p | 1 ≤ r.violations p es}.ncard := by
  intro l
  have h : r.Reflects es l := r.reflects_run block s es
  have hblocked (p : Pid) : p ∈ l.blocked ↔ r.threshold ≤ l.count p := by
    rw [h.blocked, h.threshold_le_count]
  refine ⟨h.count, fun p => ?_, ⟨l.blocked_ascending, hblocked⟩, Ledger.anyBlocked_iff,
    l.total_eq_finsum, ?_⟩
  · rw [Ledger.isBlocked_iff, hblocked]
  · rw [l.offenders_eq_ncard]
    congr 1
    ext p
    exact h.offender p

end Rules
end FileWarden
