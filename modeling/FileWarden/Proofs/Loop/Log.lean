import FileWarden.Proofs.Journal

/-!
# The log of the control loop

The loop writes a line about each read, and lines about failures; notices are logged in between. The
lines are told by the reads, by the events before them and by what the source says to blocks.

- **Events** (`Rules.logAt`, `log_entries`): an event has a line of its own, then that of its
  violation, and at a crossing that of the block or of its failure.
- **Reads** (`Rules.logAfter`, `log_told`): the lines of reads follow one another. The ledger does not
  show in them.
- **Kinds of lines** (`countP_told`): lines of one kind, counted by the reads. No text of an event or
  of an error makes a line look like one of another kind.
- **The loop** (`log_of_reads`): the whole log, and what its lines count to.
-/

namespace FileWarden

/-- Whether a line looks like a warning. -/
def LogLine.isWarning (l : LogLine) : Bool := "warning: ".toList.isPrefixOf l.text.toList

variable {τ : Type} {r : Rules} {l : Ledger} {before : List Event} {made : List Read} {e : Event}

namespace Rules

/-- The lines about an event that comes after the events `before`, if a block of its process is
answered with `blocked`. -/
def logAt (r : Rules) (before : List Event) (e : Event) (blocked : Except SourceError Unit) :
    List LogLine :=
  Loop.openLine e ::
    if r.violatedBy e then
      ⟨.normal, (Notice.violation e.pid e.comm e.path (r.countAt before e) r.threshold).message⟩ ::
        if r.crosses before e then
          match blocked with
          | .ok () => [⟨.normal, (Notice.blocked e.pid e.comm r.threshold).message⟩]
          | .error cause =>
            [⟨.normal, "warning: processing event: " ++ (BlockFailure.mk e.pid cause).message⟩]
        else []
    else []

/-- The lines about reads in order, which come after the events `before`; `s` is the state of the
source that blocks. It is asked to block at crossings only. -/
def logAfter (r : Rules) (block : τ → Pid → Except SourceError Unit × τ) (before : List Event)
    (s : τ) : List Read → List LogLine
  | [] => []
  | a :: made =>
    match a.answer with
    | .ok e =>
      r.logAt before e (block s e.pid).1 ++
        logAfter r block (before ++ [e]) (if r.crosses before e then (block s e.pid).2 else s) made
    | .error .cancelled => logAfter r block before s made
    | .error err =>
      ⟨.normal, "warning: reading event: " ++ err.message⟩ :: logAfter r block before s made

end Rules

namespace Loop

/-! ## Events -/

theorem readErrorLine_eq (err : SourceError) :
    readErrorLine err = ⟨.normal, "warning: reading event: " ++ err.message⟩ := by
  rw [readErrorLine, LogLine.warning, ← String.append_assoc]
  rfl

theorem blockFailureLine_eq (f : BlockFailure) :
    blockFailureLine f = ⟨.normal, "warning: processing event: " ++ f.message⟩ := by
  rw [blockFailureLine, LogLine.warning, ← String.append_assoc]
  rfl

theorem log_entries_eq (e : Event) (answer : Except BlockFailure Outcome × List Notice) :
    Transcript.log (entries e answer) = openLine e :: (answer.2.map fun n => .info n.message) ++
      (Run.failure? answer.1).toList.map blockFailureLine := by
  simp [entries, Transcript.log, Entry.logLine, Function.comp_def]

/-- The lines of an event that is answered and reported as it must be. -/
theorem log_entries (before : List Event) (e : Event) (blocked : Except SourceError Unit) :
    Transcript.log (entries e (r.answerAt before e blocked, r.noticesAt before e blocked)) =
      r.logAt before e blocked := by
  rw [log_entries_eq]
  unfold Rules.logAt
  cases he : r.violatedBy e with
  | false =>
    rw [Rules.answerAt_of_not_violated he, Rules.noticesAt_of_not_violated he]
    rfl
  | true =>
    rw [Rules.answerAt_of_violated he, Rules.noticesAt, if_pos he]
    cases r.crosses before e with
    | false => rfl
    | true =>
      cases blocked with
      | ok => rfl
      | error cause =>
        simp [Run.failure?, blockFailureLine_eq, LogLine.info, Except.isOk, Except.toBool]

/-! ## Reads -/

/-- What is told of reads, on a ledger that reflects the events before them. -/
theorem log_told (h : r.Reflects before l) (block : τ → Pid → Except SourceError Unit × τ) (s : τ)
    (made : List Read) :
    Transcript.log (told made (r.run block l s (made.filterMap Read.event?)).answers) =
      r.logAfter block before s made := by
  -- The induction is on the reads. After an event, the ledger reflects it too, and the source was
  -- asked to block if it crosses.
  induction made generalizing before l s with
  | nil => rfl
  | cons a made ih =>
    cases ha : a.answer with
    | ok e =>
      obtain ⟨hresult, hnotices, hsource⟩ := h.process block s e
      have hnext : r.Reflects (before ++ [e]) (r.process block l s e).ledger := by
        rw [Rules.process, Rules.processSeeing_ledger]
        exact (h.judge e).2
      rw [Read.events_of_ok _ ha]
      simp only [Rules.run, told_event ha, Transcript.log_append, ih hnext, hresult, hnotices,
        hsource, log_entries]
      simp only [Rules.logAfter, ha]
    | error err =>
      rw [Read.events_of_error _ ha]
      by_cases hcancelled : err = .cancelled
      · subst hcancelled
        rw [told_cancelled ha, ih h]
        simp only [Rules.logAfter, ha]
      · rw [told_failed ha hcancelled, ← List.singleton_append, Transcript.log_append, ih h]
        have hline : Transcript.log [.line (readErrorLine err)] = [readErrorLine err] := rfl
        rw [hline, readErrorLine_eq, List.singleton_append]
        cases err with
        | cancelled => exact absurd rfl hcancelled
        | _ => simp only [Rules.logAfter, ha]

/-! ## Kinds of lines -/

section Kinds

variable {kind : LogLine → Bool} (opens warns : Bool) (hopen : ∀ e, kind (openLine e) = opens)
  (hnotice : ∀ n : Notice, kind (.info n.message) = false)
  (hfailure : ∀ text, kind (.warning text) = warns)
include hopen hnotice hfailure

theorem countP_entries (e : Event) (answer : Except BlockFailure Outcome × List Notice) :
    (Transcript.log (entries e answer)).countP kind =
      opens.toNat + warns.toNat * (Run.failure? answer.1).toList.length := by
  have hnotices : (answer.2.map fun n => LogLine.info n.message).countP kind = 0 := by
    simp [List.countP_eq_zero, hnotice]
  have hblock (f : BlockFailure) : kind (blockFailureLine f) = warns := hfailure _
  rw [log_entries_eq, List.cons_append, List.countP_cons, List.countP_append, hnotices, hopen]
  cases Run.failure? answer.1 <;> cases opens <;> cases warns <;> simp [hblock]

/-- Lines of a kind to which no notice belongs: one for each event, if the line about an open is of
this kind, and one for each failure, if a warning is. -/
theorem countP_told {answers : List (Except BlockFailure Outcome × List Notice)}
    (h : answers.length = (made.filterMap Read.event?).length) :
    (Transcript.log (told made answers)).countP kind =
      opens.toNat * (made.filterMap Read.event?).length +
        warns.toNat * (made.countP Read.fails + (answers.filterMap (Run.failure? ·.1)).length) := by
  induction made generalizing answers with
  | nil =>
    rw [List.eq_nil_of_length_eq_zero h]
    rfl
  | cons a made ih =>
    cases ha : a.answer with
    | ok e =>
      rw [Read.events_of_ok _ ha] at h
      cases answers with
      | nil => cases h
      | cons answer answers =>
        have hanswers : ((answer :: answers).filterMap (Run.failure? ·.1)).length =
            (Run.failure? answer.1).toList.length +
              (answers.filterMap (Run.failure? ·.1)).length := by
          rw [List.filterMap_cons]
          cases Run.failure? answer.1 <;> simp [Nat.add_comm]
        rw [told_event ha, Transcript.log_append, List.countP_append,
          countP_entries opens warns hopen hnotice hfailure, ih (Nat.succ.inj h),
          Read.events_of_ok _ ha, Read.countP_fails_of_ok _ ha, hanswers, List.length_cons]
        ring
    | error err =>
      rw [Read.events_of_error _ ha] at h ⊢
      by_cases hcancelled : err = .cancelled
      · subst hcancelled
        rw [told_cancelled ha, ih h, Read.countP_fails_of_cancelled _ ha]
      · have hline : (Transcript.log [.line (readErrorLine err)]).countP kind = warns.toNat := by
          have hread : kind (readErrorLine err) = warns := hfailure _
          cases warns <;> simp [Transcript.log, Entry.logLine, hread]
        rw [told_failed ha hcancelled, ← List.singleton_append, Transcript.log_append,
          List.countP_append, hline, ih h, Read.countP_fails_of_failed _ ha hcancelled]
        ring

end Kinds

theorem isWarning_warning (text : String) : (LogLine.warning text).isWarning = true := by
  rw [LogLine.isWarning, LogLine.warning, String.toList_append, List.isPrefixOf_iff_prefix]
  exact List.prefix_append ..

theorem isWarning_openLine (e : Event) : (openLine e).isWarning = false := by
  dsimp only [LogLine.isWarning, openLine]
  simp only [String.toList_append, List.append_assoc]
  rfl

theorem isWarning_stopLine (stats : Stats) : (stopLine stats).isWarning = false := by
  dsimp only [LogLine.isWarning, stopLine]
  simp only [String.toList_append, List.append_assoc]
  rfl

theorem isWarning_message (n : Notice) : (LogLine.info n.message).isWarning = false := by
  cases n with
  | violation | blocked =>
    dsimp only [LogLine.isWarning, LogLine.info, Notice.message]
    simp only [String.toList_append, List.append_assoc]
    rfl

/-! ## The loop -/

/-- **The log of a loop.** On reads that end it, after any events decided on before, the log has the
lines of the reads in order and at last the line with the counts. Whatever texts events and failures
have, there is one line for all details for each event, and one warning for each failure. -/
theorem log_of_reads (r : Rules) (block : τ → Pid → Except SourceError Unit × τ) (s₀ s : τ)
    (before : List Event) (t : Token) (reads : List Read) (h : Ended t reads) :
    ∃ n ≤ reads.length, IsLeast {k | Ended t (reads.take k)} n ∧ ∀ bound ≥ n,
      let l := (r.run block .empty s₀ before).ledger
      let ran := complete (Feed.source block) r bound ⟨⟨reads, 0, s⟩, t, l, ⟨0, 0, 0⟩⟩
      let stats := ran.loop.stats
      let log := ran.transcript.log
      ran.stopped = true ∧
      log = r.logAfter block before s (reads.take n) ++ [stopLine stats] ∧
      log.countP (·.level = .debug) = stats.events ∧
      log.countP (·.level = .verbose) = 1 ∧
      log.countP LogLine.isWarning = stats.readErrors + stats.processErrors := by
  obtain ⟨n, hle, hleast, hends⟩ := h.exists_least
  refine ⟨n, hle, hleast, fun bound hbound => ?_⟩
  intro l ran stats log
  have hlength : (reads.take n).length = n := by rw [List.length_take, Nat.min_eq_left hle]
  have hrun := run_feed block r (reads.drop n) 0 s l ⟨0, 0, 0⟩ hends (hlength.le.trans hbound)
  rw [List.take_append_drop] at hrun
  have hreflects : r.Reflects before l := r.reflects_run block s₀ before
  let events := (reads.take n).filterMap Read.event?
  let folded := r.run block l s events
  have hanswers : folded.answers.length = events.length := r.length_answers block l s events
  have hlog : log = Transcript.log (told (reads.take n) folded.answers) ++ [stopLine stats] := by
    simp only [log, stats, ran, complete, hrun, Transcript.log_append]
    rfl
  have hstats : stats = ⟨events.length, (reads.take n).countP Read.fails, folded.failures.length⟩ := by
    simp only [stats, ran, complete, hrun, Nat.zero_add]
    rfl
  refine ⟨by simp only [ran, complete, hrun], ?_, ?_, ?_, ?_⟩
  · rw [hlog, log_told hreflects]
  · rw [hlog, List.countP_append, countP_told true false (fun _ => rfl) (fun _ => rfl)
      (fun _ => rfl) hanswers, hstats]
    simp [stopLine, events]
  · rw [hlog, List.countP_append, countP_told false false (fun _ => rfl) (fun _ => rfl)
      (fun _ => rfl) hanswers]
    simp [stopLine]
  · rw [hlog, List.countP_append, countP_told false true isWarning_openLine isWarning_message
      isWarning_warning hanswers, List.countP_singleton, isWarning_stopLine, hstats]
    simp [Run.failures]

/-- A failed read, a path that is not disallowed, and the second violation of a process, whose path
goes on like a warning in a new line and whose block fails. The first violation came before. -/
theorem log_of_failed_block :
    let secret : Event := ⟨7, 0, "cat", "/etc/shadow", 0⟩
    let forged : Event := ⟨7, 0, "cat", "/etc/shadow\nwarning: none", 0⟩
    let notes : Event := ⟨7, 0, "cat", "/home/notes", 0⟩
    let reads : List Read := [⟨.error .closed, false⟩, ⟨.ok notes, false⟩, ⟨.ok forged, true⟩]
    let denied : Unit → Pid → Except SourceError Unit × Unit :=
      fun _ p => (.error (.block p "denied"), ())
    let r : Rules := ⟨Policy.ofTexts ["/etc/shadow"], 2, .all, by decide⟩
    let l := (r.run denied .empty () [secret]).ledger
    let ran := complete (Feed.source denied) r 3 ⟨⟨reads, 0, ()⟩, .fresh, l, ⟨0, 0, 0⟩⟩
    let log := ran.transcript.log
    Ended .fresh reads ∧ ran.stopped = true ∧
    log = [⟨.normal, "warning: reading event: event source is closed"⟩,
      ⟨.debug, "open pid=7 uid=0 comm=cat path=/home/notes flags=0o0"⟩,
      ⟨.debug, "open pid=7 uid=0 comm=cat path=/etc/shadow\nwarning: none flags=0o0"⟩,
      ⟨.normal, "[VIOLATION 2/2] PID 7 (cat) opened disallowed file: /etc/shadow\nwarning: none"⟩,
      ⟨.normal, "warning: processing event: failed to block pid 7: failed to block pid 7: denied"⟩,
      ⟨.verbose, "control loop stopped: events=2 read_errors=1 process_errors=1"⟩] ∧
    log.countP (·.level = .debug) = 2 ∧ log.countP LogLine.isWarning = 2 := by
  intro secret forged notes reads denied r l ran log
  have hended : Ended .fresh reads := by decide
  obtain ⟨n, -, hleast, hran⟩ := log_of_reads r denied () () [secret] .fresh reads hended
  have hthree : IsLeast {k | Ended .fresh (reads.take k)} 3 := by
    refine ⟨by decide, fun k hk => Nat.le_of_not_lt fun hlt => ?_⟩
    have hnone : ∀ k < 3, ¬ Ended .fresh (reads.take k) := by decide
    exact hnone k hlt hk
  obtain rfl := hleast.unique hthree
  obtain ⟨hstopped, hlog, hdebug, -, hwarnings⟩ := hran 3 (by decide)
  have hstats : ran.loop.stats = ⟨2, 1, 1⟩ := by
    dsimp only [ran, l, r, denied, reads, secret, forged, notes]
    decide +kernel
  rw [hstats] at hlog hdebug hwarnings
  refine ⟨hended, hstopped, hlog.trans ?_, hdebug, hwarnings⟩
  dsimp only [r, denied, reads, secret, forged, notes]
  decide +kernel

end Loop
end FileWarden
