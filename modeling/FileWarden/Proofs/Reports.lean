import FileWarden.Log
import FileWarden.Proofs.Blocking

/-!
# What a run reports

Each event of a run is answered, and may be reported in notices. Both are told by the events before
it and by what the source says to a block (`answerAt`, `noticesAt`), without the ledger.

- **The source** (`source_run`): a run changes the source by its blocks, one for each crossing.
- **One event** (`Reflects.process`): on a ledger that reflects the events before, an event is
  answered and reported as these tell.
- **A run** (`answers_concat`, `notices_run`): so are all events of a run, in order.
- **Balance** (`perm_blocked`): a process that crosses is reported as blocked, or its block failed.
-/

namespace FileWarden

namespace Run

variable {σ : Type}

/-- The failure that an event is answered by, if it is. -/
def failure? : Except BlockFailure Outcome → Option BlockFailure
  | .ok _ => none
  | .error f => some f

/-- The notices of a run, in order. -/
def notices (run : Run σ) : List Notice := run.answers.flatMap (·.2)

/-- The blocks of a run that failed, in order. -/
def failures (run : Run σ) : List BlockFailure := run.answers.filterMap (failure? ·.1)

theorem failures_cons (answer : Except BlockFailure Outcome × List Notice) (rest : Run σ) :
    Run.failures { rest with answers := answer :: rest.answers } =
      (failure? answer.1).toList ++ rest.failures := by
  simp only [failures, List.filterMap_cons]
  cases failure? answer.1 <;> rfl

end Run

namespace Rules

variable {σ τ : Type} {r : Rules} {l : Ledger} {es before : List Event} {e : Event}

/-! ## The source -/

/-- Sources that answer a block alike decide on an event alike. -/
theorem process_alike (r : Rules) (block : σ → Pid → Except SourceError Unit × σ)
    (block' : τ → Pid → Except SourceError Unit × τ) (alike : σ → τ → Prop) {s : σ} {b : τ}
    (hs : alike s b) (hanswer : (block s e.pid).1 = (block' b e.pid).1)
    (hblock : alike (block s e.pid).2 (block' b e.pid).2) (l : Ledger) :
    let p := r.process block l s e
    let q := r.process block' l b e
    p.result = q.result ∧ p.notices = q.notices ∧ p.ledger = q.ledger ∧ alike p.source q.source := by
  simp only [process, processSeeing]
  rcases r.judge l e with ⟨_ | _ | _ | n, l'⟩
  case crossed =>
    rcases hx : block s e.pid with ⟨answer, s'⟩
    rcases hy : block' b e.pid with ⟨_ | _, b'⟩ <;>
    · rw [hx, hy] at hanswer hblock
      obtain rfl : answer = _ := hanswer
      exact ⟨rfl, rfl, rfl, hblock⟩
  all_goals exact ⟨rfl, rfl, rfl, hs⟩

/-- A source after it was asked to block some processes, in order. -/
def blockAll (block : σ → Pid → Except SourceError Unit × σ) (s : σ) (ps : List Pid) : σ :=
  ps.foldl (fun s p => (block s p).2) s

/-- What the source says when it is asked to block the process of an event that comes after the
events `before`: it was asked to block the processes that crossed at these. -/
def blockAnswer (r : Rules) (block : σ → Pid → Except SourceError Unit × σ) (s : σ)
    (before : List Event) (e : Event) : Except SourceError Unit :=
  (block (blockAll block s (r.crossings before)) e.pid).1

/-! ## One event -/

/-- How many violations the process of an event has with it, as far as a count goes. -/
def countAt (r : Rules) (before : List Event) (e : Event) : Count :=
  UInt32.ofNat (min (r.violations e.pid before + 1) (2 ^ 32 - 1))

/-- How an event is answered after the events `before`, if a block of its process is answered with
`blocked`. -/
def answerAt (r : Rules) (before : List Event) (e : Event) (blocked : Except SourceError Unit) :
    Except BlockFailure Outcome :=
  if !r.target.admits e.pid then .ok .notTargeted
  else if !r.policy.disallows e.path then .ok .allowed
  else if r.crosses before e then
    match blocked with
    | .ok () => .ok (.blocked r.threshold)
    | .error cause => .error ⟨e.pid, cause⟩
  else .ok (.violation (r.countAt before e))

/-- The notices about an event after the events `before`: one for a violation, and right after it
one for a block that succeeds. -/
def noticesAt (r : Rules) (before : List Event) (e : Event) (blocked : Except SourceError Unit) :
    List Notice :=
  if r.violatedBy e then
    .violation e.pid e.comm e.path (r.countAt before e) r.threshold ::
      if r.crosses before e && blocked.isOk then [.blocked e.pid e.comm r.threshold] else []
  else []

theorem countAt_of_crosses (h : r.crosses before e = true) :
    r.countAt before e = r.threshold := by
  simp only [crosses, Bool.and_eq_true, beq_iff_eq] at h
  have := r.threshold.toNat_lt
  rw [countAt, h.2, Nat.min_eq_left (by omega), UInt32.ofNat_toNat]

/-- What an event means, in terms of crossing. -/
theorem verdict_eq (r : Rules) (before : List Event) (e : Event) : r.verdict before e =
    if !r.target.admits e.pid then .notTargeted
    else if !r.policy.disallows e.path then .allowed
    else if r.crosses before e then .crossed r.threshold
    else .counted (r.countAt before e) := by
  unfold verdict crosses violatedBy countAt
  cases r.target.admits e.pid with
  | false => rfl
  | true =>
    cases r.policy.disallows e.path with
    | false => rfl
    | true => simp

/-- On a ledger that reflects the events before, an event is answered and reported as these tell,
and its process is blocked if it crosses. -/
theorem Reflects.process (h : r.Reflects before l)
    (block : σ → Pid → Except SourceError Unit × σ) (s : σ) (e : Event) :
    (r.process block l s e).result = r.answerAt before e (block s e.pid).1 ∧
    (r.process block l s e).notices = r.noticesAt before e (block s e.pid).1 ∧
    (r.process block l s e).source =
      if r.crosses before e then (block s e.pid).2 else s := by
  have hverdict := (h.judge e).1
  rw [verdict_eq] at hverdict
  rw [Rules.process, processSeeing]
  rcases hjudge : r.judge l e with ⟨v, l'⟩
  rw [hjudge] at hverdict
  subst hverdict
  cases ha : r.target.admits e.pid with
  | false => simp [answerAt, noticesAt, crosses, violatedBy, ha]
  | true =>
    cases hd : r.policy.disallows e.path with
    | false => simp [answerAt, noticesAt, crosses, violatedBy, ha, hd]
    | true =>
      have he : r.violatedBy e = true := violatedBy_iff.mpr ⟨ha, hd⟩
      cases hc : r.crosses before e with
      | false => simp [answerAt, noticesAt, violation, ha, hd, he, hc]
      | true =>
        -- The block is asked for, and what it says is answered and reported.
        have hcount := countAt_of_crosses hc
        rcases hblock : block s e.pid with ⟨_ | _, t⟩ <;>
          simp [answerAt, noticesAt, violation, ha, hd, he, hc, hcount, Except.isOk, Except.toBool]

theorem noticesAt_of_not_violated (he : r.violatedBy e = false) (b : Except SourceError Unit) :
    r.noticesAt before e b = [] := by
  simp [noticesAt, he]

/-- An event that is no violation is passed over. -/
theorem answerAt_of_not_violated (he : r.violatedBy e = false) (b : Except SourceError Unit) :
    r.answerAt before e b = .ok (if r.target.admits e.pid then .allowed else .notTargeted) := by
  cases ha : r.target.admits e.pid with
  | false => simp [answerAt, ha]
  | true =>
    have hd : r.policy.disallows e.path = false := by simpa [violatedBy, ha] using he
    simp [answerAt, ha, hd]

theorem judge_of_not_violated (he : r.violatedBy e = false) (l : Ledger) :
    (r.judge l e).2 = l := by
  cases ha : r.target.admits e.pid with
  | false => rw [judge_of_not_admits ha]
  | true =>
    have hd : r.policy.disallows e.path = false := by simpa [violatedBy, ha] using he
    rw [judge_of_allowed ha hd]

theorem answerAt_of_violated (he : r.violatedBy e = true) (b : Except SourceError Unit) :
    r.answerAt before e b = if r.crosses before e then
      match b with
      | .ok () => .ok (.blocked r.threshold)
      | .error cause => .error ⟨e.pid, cause⟩
    else .ok (.violation (r.countAt before e)) := by
  obtain ⟨ha, hd⟩ := violatedBy_iff.mp he
  simp [answerAt, ha, hd]

/-- An event is answered as one that blocks its process exactly if a notice says so. -/
theorem answerAt_blocked_iff (before : List Event) (e : Event) (b : Except SourceError Unit)
    (n : Count) : r.answerAt before e b = .ok (.blocked n) ↔
      .blocked e.pid e.comm n ∈ r.noticesAt before e b := by
  cases he : r.violatedBy e with
  | false =>
    rw [answerAt_of_not_violated he, noticesAt_of_not_violated he]
    split <;> simp
  | true =>
    rw [answerAt_of_violated he, noticesAt, if_pos he]
    cases r.crosses before e with
    | false => simp
    | true => cases b <;> simp [Except.isOk, Except.toBool, eq_comm]

/-- An event is answered by a failure exactly if it crosses and the block of its process fails. -/
theorem answerAt_error_iff (before : List Event) (e : Event) (b : Except SourceError Unit)
    (f : BlockFailure) : r.answerAt before e b = .error f ↔
      r.crosses before e = true ∧ f.pid = e.pid ∧ b = .error f.cause := by
  cases he : r.violatedBy e with
  | false =>
    rw [answerAt_of_not_violated he]
    simp [crosses, he]
  | true =>
    rw [answerAt_of_violated he]
    obtain ⟨pid, cause⟩ := f
    cases r.crosses before e with
    | false => simp
    | true => cases b <;> simp [eq_comm]

/-! ## A run -/

theorem length_answers (r : Rules) (block : σ → Pid → Except SourceError Unit × σ) (l : Ledger)
    (s : σ) (es : List Event) : (r.run block l s es).answers.length = es.length := by
  induction es generalizing l s with
  | nil => rfl
  | cons e es ih => simp only [run, List.length_cons, ih]

theorem run_concat (block : σ → Pid → Except SourceError Unit × σ) (l : Ledger) (s : σ)
    (es : List Event) (e : Event) :
    r.run block l s (es ++ [e]) =
      let first := r.run block l s es
      let p := r.process block first.ledger first.source e
      ⟨first.answers ++ [(p.result, p.notices)], p.ledger, p.source⟩ := by
  simp only [run_eq_runSeeing, runSeeing_append, runSeeing, process]

/-- A run asks the source to block the processes that cross, and nothing else. -/
theorem source_run (block : σ → Pid → Except SourceError Unit × σ) (s : σ) (es : List Event) :
    (r.run block .empty s es).source = blockAll block s (r.crossings es) := by
  induction es using List.reverseRecOn with
  | nil => rfl
  | append_singleton es e ih =>
    have hsource := ((r.reflects_run block s es).process block
      (blockAll block s (r.crossings es)) e).2.2
    simp only [run_concat, ih, hsource]
    rw [crossings_concat, blockAll, blockAll, List.foldl_append]
    split <;> rfl

/-- The events of a run are answered and reported as the events before them tell. -/
theorem answers_concat (block : σ → Pid → Except SourceError Unit × σ) (s : σ) (es : List Event)
    (e : Event) :
    (r.run block .empty s (es ++ [e])).answers = (r.run block .empty s es).answers ++
      [(r.answerAt es e (r.blockAnswer block s es e),
        r.noticesAt es e (r.blockAnswer block s es e))] := by
  obtain ⟨hresult, hnotices, -⟩ := (r.reflects_run block s es).process block
    (blockAll block s (r.crossings es)) e
  simp only [run_concat, source_run, hresult, hnotices, blockAnswer]

/-- The notices about events in order, which come after the events `before`. -/
def noticesAfter (r : Rules) (block : σ → Pid → Except SourceError Unit × σ) (s : σ)
    (before : List Event) : List Event → List Notice
  | [] => []
  | e :: es =>
    r.noticesAt before e (r.blockAnswer block s before e) ++
      noticesAfter r block s (before ++ [e]) es

theorem noticesAfter_append (block : σ → Pid → Except SourceError Unit × σ) (s : σ)
    (before es fs : List Event) : r.noticesAfter block s before (es ++ fs) =
      r.noticesAfter block s before es ++ r.noticesAfter block s (before ++ es) fs := by
  induction es generalizing before with
  | nil => simp [noticesAfter]
  | cons e es ih => simp [noticesAfter, ih]

theorem notices_concat (block : σ → Pid → Except SourceError Unit × σ) (s : σ) (es : List Event)
    (e : Event) : (r.run block .empty s (es ++ [e])).notices =
      (r.run block .empty s es).notices ++ r.noticesAt es e (r.blockAnswer block s es e) := by
  simp [Run.notices, answers_concat]

theorem notices_run (block : σ → Pid → Except SourceError Unit × σ) (s : σ) (es : List Event) :
    (r.run block .empty s es).notices = r.noticesAfter block s [] es := by
  induction es using List.reverseRecOn with
  | nil => rfl
  | append_singleton es e ih =>
    rw [notices_concat, ih, noticesAfter_append]
    simp [noticesAfter]

/-! ## Balance -/

theorem failures_concat (block : σ → Pid → Except SourceError Unit × σ) (s : σ) (es : List Event)
    (e : Event) : (r.run block .empty s (es ++ [e])).failures =
      (r.run block .empty s es).failures ++
        (Run.failure? (r.answerAt es e (r.blockAnswer block s es e))).toList := by
  rw [Run.failures, Run.failures, answers_concat, List.filterMap_append]
  cases r.answerAt es e (r.blockAnswer block s es e) <;> rfl

/-- The process of a crossing event is reported as blocked, or its block fails. -/
theorem blocked_or_failed (before : List Event) (e : Event) (b : Except SourceError Unit) :
    Notice.blockedPids (r.noticesAt before e b) ++
      (Run.failure? (r.answerAt before e b)).toList.map BlockFailure.pid =
      if r.crosses before e then [e.pid] else [] := by
  cases he : r.violatedBy e with
  | false =>
    rw [answerAt_of_not_violated he, noticesAt_of_not_violated he]
    simp [crosses, he, Run.failure?, Notice.blockedPids]
  | true =>
    rw [answerAt_of_violated he, noticesAt, if_pos he]
    cases r.crosses before e with
    | false => simp [Run.failure?, Notice.blockedPids]
    | true => cases b <;> simp [Run.failure?, Notice.blockedPids, Except.isOk, Except.toBool]

/-- Every process that crosses is reported as blocked once, or its block failed once. -/
theorem perm_crossings (block : σ → Pid → Except SourceError Unit × σ) (s : σ) (es : List Event) :
    let run := r.run block .empty s es
    (Notice.blockedPids run.notices ++ run.failures.map BlockFailure.pid).Perm
      (r.crossings es) := by
  induction es using List.reverseRecOn with
  | nil => exact .refl _
  | append_singleton es e ih =>
    have hsplit (ns ms : List Notice) :
        Notice.blockedPids (ns ++ ms) = Notice.blockedPids ns ++ Notice.blockedPids ms :=
      List.filterMap_append
    show (Notice.blockedPids (r.run block .empty s (es ++ [e])).notices ++
      (r.run block .empty s (es ++ [e])).failures.map BlockFailure.pid).Perm _
    rw [notices_concat, failures_concat, hsplit, List.map_append, crossings_concat,
      ← blocked_or_failed es e (r.blockAnswer block s es e)]
    have hswap (as bs fs gs : List Pid) :
        ((as ++ bs) ++ (fs ++ gs)).Perm ((as ++ fs) ++ (bs ++ gs)) := by
      simp only [List.append_assoc]
      exact (List.perm_append_comm_assoc bs fs gs).append_left as
    exact (hswap ..).trans (ih.append_right _)

/-- Every blocked process is reported as blocked once, or its block failed once. -/
theorem perm_blocked (block : σ → Pid → Except SourceError Unit × σ) (s : σ) (es : List Event) :
    let run := r.run block .empty s es
    (Notice.blockedPids run.notices ++ run.failures.map BlockFailure.pid).Perm
      run.ledger.blocked := by
  refine (r.perm_crossings block s es).trans ?_
  have hblocked : (r.run block .empty s es).ledger.blocked.Nodup :=
    (r.run block .empty s es).ledger.blocked_ascending.imp fun h => UInt32.ne_of_lt h
  rw [List.perm_ext_iff_of_nodup (r.nodup_crossings es) hblocked]
  intro p
  rw [mem_crossings, (r.reflects_run block s es).blocked]

/-- **What a run reports.** Its notices are those of its violations, in order, each told by the
events before it and by the answer to the block of a process that crosses. Each event is answered
accordingly, so each blocked process is reported as blocked, or its block is among the failures. -/
theorem notices_and_answers (r : Rules) (block : σ → Pid → Except SourceError Unit × σ) (s : σ)
    (es : List Event) :
    let run := r.run block .empty s es
    run.notices = r.noticesAfter block s [] es ∧
    run.source = blockAll block s (r.crossings es) ∧
    (∀ e, let next := r.run block .empty s (es ++ [e])
      let blocked := r.blockAnswer block s es e
      let answer := r.answerAt es e blocked
      let notices := r.noticesAt es e blocked
      next.answers = run.answers ++ [(answer, notices)] ∧
      (r.violatedBy e = false → notices = [] ∧
        answer = .ok (if r.target.admits e.pid then .allowed else .notTargeted) ∧
        next.ledger = run.ledger ∧ next.source = run.source) ∧
      (∀ n, answer = .ok (.blocked n) ↔ .blocked e.pid e.comm n ∈ notices) ∧
      (∀ f, answer = .error f ↔
        r.crosses es e = true ∧ f.pid = e.pid ∧ blocked = .error f.cause)) ∧
    run.ledger.blocked.length = (Notice.blockedPids run.notices).length + run.failures.length := by
  intro run
  refine ⟨r.notices_run block s es, r.source_run block s es, fun e => ?_, ?_⟩
  · refine ⟨r.answers_concat block s es e, fun he => ?_, r.answerAt_blocked_iff es e _,
      r.answerAt_error_iff es e _⟩
    refine ⟨noticesAt_of_not_violated he _, answerAt_of_not_violated he _, ?_, ?_⟩
    · rw [run_concat_ledger, judge_of_not_violated he]
    · rw [source_run, crossings_concat, if_neg (by simp [crosses, he]), List.append_nil]
      exact (r.source_run block s es).symm
  · rw [← (r.perm_blocked block s es).length_eq, List.length_append, List.length_map]

end Rules
end FileWarden
