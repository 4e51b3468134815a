import FileWarden.Proofs.History

/-!
# Blocks of a run

- **Calls** (`blockCalls`): how a run calls its block, in order. Each call is written down with the
  ledger as it stands at that moment (`noting`); writing it down changes nothing else
  (`runSeeing_noting`).
- **Crossings** (`crossings`): the processes of some events in the order of their threshold-th
  violations. A process is among them once if it has that many violations, and not at all otherwise
  (`count_crossings`).
- **Exactly once** (`blockCalls_are_crossings`): the calls of a run are its crossings, each made by
  the very event that crosses, with the process already blocked in the ledger.
-/

namespace FileWarden

/-- A call of a block: the process that is to be blocked, and the ledger at that moment. -/
structure BlockCall where
  pid : Pid
  ledger : Ledger

namespace Rules

variable {σ : Type} {r : Rules} {l : Ledger} {es : List Event} {e : Event}

/-! ## Crossings -/

/-- After the events `before`, this event is the threshold-th violation of its process. -/
def crosses (r : Rules) (before : List Event) (e : Event) : Bool :=
  r.violatedBy e && r.violations e.pid before + 1 == r.threshold.toNat

/-- The processes that cross the threshold at the events, which come after `before`. -/
def crossingsAfter (r : Rules) (before : List Event) : List Event → List Pid
  | [] => []
  | e :: es =>
    (if r.crosses before e then [e.pid] else []) ++ crossingsAfter r (before ++ [e]) es

/-- The processes that cross the threshold at the events, in the order in which they do. -/
def crossings (r : Rules) (es : List Event) : List Pid := r.crossingsAfter [] es

theorem crossingsAfter_append (r : Rules) (before es fs : List Event) :
    r.crossingsAfter before (es ++ fs) =
      r.crossingsAfter before es ++ r.crossingsAfter (before ++ es) fs := by
  induction es generalizing before with
  | nil => simp [crossingsAfter]
  | cons e es ih => simp [crossingsAfter, ih]

theorem crossings_concat (r : Rules) (es : List Event) (e : Event) :
    r.crossings (es ++ [e]) = r.crossings es ++ if r.crosses es e then [e.pid] else [] := by
  simp [crossings, crossingsAfter_append, crossingsAfter]

/-- A process crosses the threshold once, if it has as many violations. -/
theorem count_crossings (r : Rules) (p : Pid) (es : List Event) :
    (r.crossings es).count p = if r.threshold.toNat ≤ r.violations p es then 1 else 0 := by
  induction es using List.reverseRecOn with
  | nil =>
    have := r.threshold_toNat_pos
    rw [violations_nil, if_neg (by omega)]
    rfl
  | append_singleton es e ih =>
    rw [crossings_concat, List.count_append, ih, violations_concat]
    by_cases he : e.pid = p ∧ r.violatedBy e = true
    · obtain ⟨rfl, he⟩ := he
      rw [if_pos (⟨rfl, he⟩ : e.pid = e.pid ∧ _)]
      by_cases hc : r.violations e.pid es + 1 = r.threshold.toNat
      · have hbelow : ¬ r.threshold.toNat ≤ r.violations e.pid es := by omega
        rw [if_neg hbelow, if_pos (Nat.le_of_eq hc.symm)]
        simp [crosses, he, hc]
      · simp only [crosses, he, hc, Bool.true_and, beq_iff_eq, if_false, List.count_nil]
        split <;> split <;> omega
    · rw [if_neg he]
      have hcount : List.count p (if r.crosses es e then [e.pid] else []) = 0 := by
        split
        · rename_i hc
          simp only [crosses, Bool.and_eq_true] at hc
          exact List.count_eq_zero.mpr fun hm => he ⟨(List.mem_singleton.mp hm).symm, hc.1⟩
        · rfl
      rw [hcount, Nat.add_zero, Nat.add_zero]

theorem nodup_crossings (r : Rules) (es : List Event) : (r.crossings es).Nodup := by
  rw [List.nodup_iff_count_le_one]
  intro p
  rw [count_crossings]
  split <;> omega

theorem mem_crossings (r : Rules) (p : Pid) (es : List Event) :
    p ∈ r.crossings es ↔ r.threshold.toNat ≤ r.violations p es := by
  rw [← List.count_pos_iff, count_crossings]
  split <;> simp_all

/-! ## Calls -/

/-- A block that writes down its calls, with the ledger that it is shown. -/
def noting (block : σ → Pid → Except SourceError Unit × σ) (l : Ledger) (s : σ × List BlockCall)
    (p : Pid) : Except SourceError Unit × (σ × List BlockCall) :=
  ((block s.1 p).1, (block s.1 p).2, s.2 ++ [⟨p, l⟩])

/-- How a run from the empty ledger calls its block. -/
def blockCalls (r : Rules) (block : σ → Pid → Except SourceError Unit × σ) (s : σ)
    (es : List Event) : List BlockCall :=
  (r.runSeeing (noting block) .empty (s, []) es).source.2

/-- How an event makes a block be called, if it does. -/
def callsAt (r : Rules) (l : Ledger) (e : Event) : List BlockCall :=
  match r.judge l e with
  | (.crossed _, l) => [⟨e.pid, l⟩]
  | _ => []

/-- Writing the calls down changes no answer, no notice, no ledger and no source. -/
theorem processSeeing_noting (block : σ → Pid → Except SourceError Unit × σ) (l : Ledger) (s : σ)
    (calls : List BlockCall) (e : Event) :
    r.processSeeing (noting block) l (s, calls) e =
      let p := r.process block l s e
      ⟨p.result, p.notices, p.ledger, (p.source, calls ++ r.callsAt l e)⟩ := by
  simp only [process, processSeeing, noting, callsAt]
  rcases r.judge l e with ⟨_ | _ | _ | n, l'⟩
  case crossed => rcases block s e.pid with ⟨_ | _, t⟩ <;> rfl
  all_goals simp

theorem runSeeing_noting (block : σ → Pid → Except SourceError Unit × σ) (l : Ledger) (s : σ)
    (calls : List BlockCall) (es : List Event) :
    ∃ made, r.runSeeing (noting block) l (s, calls) es =
      let plain := r.run block l s es
      ⟨plain.answers, plain.ledger, (plain.source, made)⟩ := by
  induction es generalizing l s calls with
  | nil => exact ⟨calls, rfl⟩
  | cons e es ih =>
    obtain ⟨made, hmade⟩ := ih (r.process block l s e).ledger (r.process block l s e).source
      (calls ++ r.callsAt l e)
    exact ⟨made, by simp only [runSeeing, processSeeing_noting, hmade, run]⟩

theorem crosses_eq_verdict (r : Rules) (es : List Event) (e : Event) :
    r.crosses es e = match r.verdict es e with
      | .crossed _ => true
      | _ => false := by
  unfold crosses verdict violatedBy
  cases r.target.admits e.pid
  · rfl
  cases r.policy.disallows e.path
  · rfl
  by_cases h : r.violations e.pid es + 1 = r.threshold.toNat <;> simp [h]

/-- A block is called at the events that cross, and the ledger reflects such an event already. -/
theorem Reflects.callsAt (h : r.Reflects es l) (e : Event) :
    r.callsAt l e = if r.crosses es e then [⟨e.pid, (r.judge l e).2⟩] else [] := by
  have hv := (h.judge e).1
  rw [crosses_eq_verdict, ← hv]
  unfold Rules.callsAt
  rcases r.judge l e with ⟨_ | _ | _ | n, l'⟩ <;> rfl

theorem blockCalls_concat (block : σ → Pid → Except SourceError Unit × σ) (s : σ)
    (es : List Event) (e : Event) :
    r.blockCalls block s (es ++ [e]) = r.blockCalls block s es ++
      if r.crosses es e then [⟨e.pid, (r.run block .empty s (es ++ [e])).ledger⟩] else [] := by
  obtain ⟨made, hmade⟩ := r.runSeeing_noting block .empty s [] es
  simp only [blockCalls, runSeeing_append, hmade, runSeeing, processSeeing_noting,
    run_concat_ledger, (r.reflects_run block s es).callsAt]

theorem pids_blockCalls (block : σ → Pid → Except SourceError Unit × σ) (s : σ)
    (es : List Event) : (r.blockCalls block s es).map (·.pid) = r.crossings es := by
  induction es using List.reverseRecOn with
  | nil => rfl
  | append_singleton es e ih =>
    rw [blockCalls_concat, List.map_append, ih, crossings_concat]
    split <;> rfl

theorem isBlocked_of_mem_blockCalls (block : σ → Pid → Except SourceError Unit × σ) (s : σ)
    (es : List Event) : ∀ c ∈ r.blockCalls block s es, c.ledger.isBlocked c.pid = true := by
  induction es using List.reverseRecOn with
  | nil => simp [blockCalls, runSeeing]
  | append_singleton es e ih =>
    intro c hc
    rw [blockCalls_concat, List.mem_append] at hc
    rcases hc with hc | hc
    · exact ih c hc
    split at hc
    · rename_i hcross
      obtain rfl := List.mem_singleton.mp hc
      rw [Ledger.isBlocked_iff, (r.reflects_run block s (es ++ [e])).blocked, violations_concat]
      simp only [crosses, Bool.and_eq_true, beq_iff_eq] at hcross
      rw [if_pos ⟨rfl, hcross.1⟩]
      exact Nat.le_of_eq hcross.2.symm
    · cases hc

/-- A run from the empty ledger calls its block for the processes that cross the threshold, in the
order in which they do, each at the event with which it crosses, and for no process twice. Each time
the process is blocked in the ledger already. The block may fail at any of the calls. -/
theorem blockCalls_are_crossings (r : Rules) (block : σ → Pid → Except SourceError Unit × σ) (s : σ)
    (es : List Event) :
    let calls := r.blockCalls block s es
    calls.map (·.pid) = r.crossings es ∧
    (∀ e, r.blockCalls block s (es ++ [e]) = calls ++
      if r.crosses es e then [⟨e.pid, (r.run block .empty s (es ++ [e])).ledger⟩] else []) ∧
    (calls.map (·.pid)).Nodup ∧
    (∀ p, p ∈ calls.map (·.pid) ↔ r.threshold.toNat ≤ r.violations p es) ∧
    (∀ c ∈ calls, c.ledger.isBlocked c.pid = true) ∧
    r.runSeeing (noting block) .empty (s, []) es =
      ⟨(r.run block .empty s es).answers, (r.run block .empty s es).ledger,
        ((r.run block .empty s es).source, calls)⟩ := by
  intro calls
  have hpids : calls.map (·.pid) = r.crossings es := r.pids_blockCalls block s es
  refine ⟨hpids, fun e => r.blockCalls_concat block s es e, ?_, fun p => ?_,
    r.isBlocked_of_mem_blockCalls block s es, ?_⟩
  · rw [hpids]
    exact r.nodup_crossings es
  · rw [hpids, mem_crossings]
  · obtain ⟨made, hmade⟩ := r.runSeeing_noting block .empty s [] es
    have hcalls : calls = made := congrArg (·.source.2) hmade
    rw [hmade, hcalls]

end Rules
end FileWarden
