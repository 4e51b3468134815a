import FileWarden.Proofs.Loop
import FileWarden.Session
import FileWarden.Source.Replay
import FileWarden.Source.Script

/-!
# Sessions on a supply of events

A supply answers given events one after the other. When none is left, it cancels the token of its
reader, and the read ends as cancelled.

- **Supplies** (`Source.Drains`): a source that answers so in all its states, with blocks that
  answer as given ones do. `Source.Supplies` is the case that it blocks whom it is asked to block.
- **The loop** (`run_drained`): on a supply the loop stops by itself, after one read more than there
  are events, and decides on these as `Rules.run` does.
- **Reports** (`Rules.reports`): if every block succeeds, what is told of an event follows from the
  events before it alone, and nothing fails.
- **Sessions** (`run_supplied`): the summary and the transcript of a session on a supply, whatever
  the source is. A replay that cancels its reader is one, and so is a script.
-/

namespace FileWarden

variable {σ τ : Type} {es : List Event}

/-! ## Supplies -/

/-- A source that answers given events and then ends. `holds s b es` says that the events `es` are
left in the state `s`, and that blocks are answered as `block` answers them in the state `b`. -/
structure Source.Drains (src : Source σ) (block : τ → Pid → Except SourceError Unit × τ)
    (holds : σ → τ → List Event → Prop) : Prop where
  next : ∀ {s b e es t}, holds s b (e :: es) → t.cancelled = false →
    (src.next s t).answer = .ok e ∧ (src.next s t).token = t ∧ holds (src.next s t).source b es
  last : ∀ {s b t}, holds s b [] → t.cancelled = false →
    (src.next s t).answer = .error .cancelled ∧ (src.next s t).token = t.cancel
  block : ∀ {s b es} p, holds s b es →
    (src.block s p).1 = (block b p).1 ∧ holds (src.block s p).2 (block b p).2 es

namespace Source.Drains

variable {src : Source σ} {block : τ → Pid → Except SourceError Unit × τ}
  {holds : σ → τ → List Event → Prop} {s : σ} {b : τ} {t : Token}

/-- A supply decides on an event as its blocks do, and has the same events left after it. -/
theorem process (h : src.Drains block holds) (hs : holds s b es) (r : Rules) (l : Ledger)
    (e : Event) :
    let p := r.process src.block l s e
    let q := r.process block l b e
    p.result = q.result ∧ p.notices = q.notices ∧ p.ledger = q.ledger ∧
      holds p.source q.source es := by
  obtain ⟨hanswer, hblock⟩ := h.block e.pid hs
  exact r.process_alike src.block block (holds · · es) hs hanswer hblock l

/-- The loop reads a supply to its end and stops. It decides on the events as `Rules.run` does. -/
theorem run_drained (h : src.Drains block holds) (hs : holds s b es) (ht : t.cancelled = false)
    (r : Rules) (l : Ledger) (stats : Stats) {bound : Nat} (hbound : es.length < bound) :
    let folded := r.run block l b es
    ∃ last, holds last folded.source [] ∧
      Loop.run src r bound ⟨s, t, l, stats⟩ =
        ⟨⟨(src.next last t).source, t.cancel, folded.ledger, ⟨stats.events + es.length,
            stats.readErrors, stats.processErrors + folded.failures.length⟩⟩,
          (es.zip folded.answers).flatMap fun (e, answer) => Loop.entries e answer, true⟩ := by
  -- The induction is on the events left. After each, `holds` is kept with the blocks as they stand,
  -- and the token is as it was, so the next read is made.
  induction es generalizing s b l stats bound with
  | nil =>
    obtain ⟨bound, rfl⟩ := Nat.exists_eq_add_of_le' (Nat.zero_lt_of_lt hbound)
    obtain ⟨hanswer, htoken⟩ := h.last hs ht
    refine ⟨s, hs, ?_⟩
    rw [Loop.run_of_turn_stopped ht (Loop.turn_of_cancelled hanswer), htoken]
    rfl
  | cons e es ih =>
    obtain ⟨hanswer, htoken, hnext⟩ := h.next hs ht
    obtain ⟨hresult, hnotices, hledger, hsource⟩ := h.process hnext r l e
    obtain ⟨bound, rfl⟩ := Nat.exists_eq_add_of_le' (Nat.zero_lt_of_lt hbound)
    obtain ⟨last, hlast, hrest⟩ := ih hsource (r.process block l b e).ledger
      ⟨stats.events + 1, stats.readErrors, stats.processErrors +
        (Run.failure? (r.process block l b e).result).toList.length⟩ (Nat.lt_of_succ_lt_succ hbound)
    refine ⟨last, hlast, ?_⟩
    rw [Loop.run_of_turn ht (Loop.turn_of_event hanswer)]
    simp only [hresult, hnotices, hledger, htoken, hrest, Rules.run, Run.failures_cons,
      List.zip_cons_cons, List.flatMap_cons, List.length_append, List.length_cons, Nat.add_assoc,
      Nat.add_comm 1]

end Source.Drains

/-! ## Reports -/

namespace Rules

/-- A block that succeeds. -/
def accept (_ : Unit) (_ : Pid) : Except SourceError Unit × Unit := (.ok (), ())

/-- Events that come after `before`, each with its notices if every block succeeds. -/
def reportsAfter (r : Rules) (before : List Event) : List Event → List (Event × List Notice)
  | [] => []
  | e :: es => (e, r.noticesAt before e (.ok ())) :: reportsAfter r (before ++ [e]) es

/-- Events, each with its notices if every block succeeds. -/
def reports (r : Rules) (es : List Event) : List (Event × List Notice) := r.reportsAfter [] es

/-- The entries of an event with its notices, if nothing fails. -/
def entries : Event × List Notice → Transcript
  | (e, notices) => .line (Loop.openLine e) :: notices.map .notice

/-- The summary of a session on events in which nothing fails. -/
def summary (r : Rules) (es : List Event) : Summary :=
  let l := (r.run accept .empty () es).ledger
  ⟨⟨es.length, 0, 0⟩, l.total, l.offenders, l.blocked⟩

theorem reportsAfter_append (r : Rules) (before es fs : List Event) :
    r.reportsAfter before (es ++ fs) =
      r.reportsAfter before es ++ r.reportsAfter (before ++ es) fs := by
  induction es generalizing before with
  | nil => simp [reportsAfter]
  | cons e es ih => simp [reportsAfter, ih]

theorem reports_concat (r : Rules) (es : List Event) (e : Event) :
    r.reports (es ++ [e]) = r.reports es ++ [(e, r.noticesAt es e (.ok ()))] := by
  simp [reports, reportsAfter_append, reportsAfter]

theorem failure?_answerAt_ok (r : Rules) (before : List Event) (e : Event) :
    Run.failure? (r.answerAt before e (.ok ())) = none := by
  cases h : r.answerAt before e (.ok ()) with
  | ok => rfl
  | error f => cases ((r.answerAt_error_iff before e (.ok ()) f).mp h).2.2

theorem failures_accept (r : Rules) (es : List Event) :
    (r.run accept .empty () es).failures = [] := by
  induction es using List.reverseRecOn with
  | nil => rfl
  | append_singleton es e ih =>
    have hanswer : r.blockAnswer accept () es e = .ok () := rfl
    rw [failures_concat, ih, hanswer, failure?_answerAt_ok]
    rfl

theorem told_accept (r : Rules) (es : List Event) :
    (es.zip (r.run accept .empty () es).answers).flatMap (fun (e, answer) => Loop.entries e answer) =
      (r.reports es).flatMap entries := by
  induction es using List.reverseRecOn with
  | nil => rfl
  | append_singleton es e ih =>
    have hanswer : r.blockAnswer accept () es e = .ok () := rfl
    have hlength := r.length_answers accept .empty () es
    rw [answers_concat, List.zip_append hlength.symm, List.flatMap_append, ih, reports_concat,
      List.flatMap_append, hanswer]
    simp [Loop.entries, entries, failure?_answerAt_ok]

theorem notices_accept (r : Rules) (es : List Event) :
    Transcript.notices ((r.reports es).flatMap entries) = (r.reports es).flatMap (·.2) := by
  induction r.reports es with
  | nil => rfl
  | cons report reports ih =>
    rw [List.flatMap_cons, List.flatMap_cons, Transcript.notices_append, ih]
    exact congrArg (· ++ _) (Transcript.notices_map_notice report.2)

/-- The summary of a session in which nothing fails, said of the events. -/
theorem summary_tells (r : Rules) (es : List Event) :
    let s := r.summary es
    s.stats = ⟨es.length, 0, 0⟩ ∧
    s.violations.toNat = ∑ᶠ p : Pid, min (r.violations p es) (2 ^ 32 - 1) ∧
    s.offenders = {p | 1 ≤ r.violations p es}.ncard ∧
    s.blocked.Pairwise (· < ·) ∧ ∀ p, p ∈ s.blocked ↔ r.threshold.toNat ≤ r.violations p es := by
  have h := r.reflects_run accept () es
  refine ⟨rfl, ?_, ?_, Ledger.blocked_ascending _, h.blocked⟩
  · exact (Ledger.total_eq_finsum _).trans (finsum_congr h.count)
  · refine (Ledger.offenders_eq_ncard _).trans (congrArg Set.ncard ?_)
    ext p
    exact h.offender p

end Rules

/-! ## Sessions -/

/-- A source that answers these events, blocks whom it is asked to block, and then cancels the token
of its reader and ends as cancelled. -/
def Source.Supplies (src : Source σ) (s : σ) (es : List Event) : Prop :=
  ∃ holds, src.Drains Rules.accept holds ∧ holds s () es

/-- What a session on events tells up to its closing, if nothing fails. -/
def Rules.course (r : Rules) (journal : Option String) (es : List Event) : Transcript :=
  (Session.journalLines journal).map .line ++ (r.reports es).flatMap Rules.entries ++
    [Loop.stopLine ⟨es.length, 0, 0⟩, .info "Exiting..."].map .line

/-- A session on a supply comes to its end, and all but the closing of the source is told by the
events. -/
theorem Session.run_supplied {src : Source σ} {s : σ} {t : Token} (h : src.Supplies s es)
    (ht : t.cancelled = false) (r : Rules) (journal : Option String) {bound : Nat}
    (hbound : es.length < bound) :
    let last := ((Loop.start s t).complete src r bound).loop.source
    Session.run src r journal bound s t =
      ⟨r.summary es, r.course journal es ++
          (closeLines (src.close last).1 ++ (r.summary es).lines).map .line,
        (src.close last).2, true⟩ := by
  obtain ⟨holds, hdrains, hs⟩ := h
  obtain ⟨last, -, hrun⟩ := hdrains.run_drained hs ht r .empty ⟨0, 0, 0⟩ hbound
  have hfailures := r.failures_accept es
  have htold := r.told_accept es
  simp only [hfailures, htold, List.length_nil, Nat.zero_add] at hrun
  simp only [Session.run, Loop.start, Loop.complete, hrun]
  simp [Rules.course, Rules.summary, summaryOf]

namespace Replay

/-- A replay of events that cancels its reader supplies them. -/
theorem supplies (es : List Event) : source.Supplies (untilDrained es false) es := by
  refine ⟨fun s _ es => s = ⟨es, .cancelReader, false, s.calls, false⟩, ⟨?_, ?_, ?_⟩, rfl⟩
  · rintro s - e es t hs ht
    rw [hs]
    simp [source, Replay.next, poll, ht]
  · rintro s - t hs ht
    rw [hs]
    simp [source, Replay.next, poll, ht]
  · rintro s - es p hs
    rw [hs]
    simp [source, Replay.block, Rules.accept]

end Replay

namespace Script

/-- A script of events that blocks everybody supplies them. -/
theorem supplies (es : List Event) (closeError : Option String) :
    source.Supplies ⟨es.map (.answer <| .ok ·), [], [], closeError⟩ es := by
  refine ⟨fun s _ es => s.items = es.map (.answer <| .ok ·) ∧ s.failing = [], ⟨?_, ?_, ?_⟩, rfl, rfl⟩
  · rintro s - e es t ⟨hitems, hfailing⟩ -
    simp [source, Script.next, hitems, hfailing, read]
  · rintro s - t ⟨hitems, -⟩ -
    simp [source, Script.next, hitems, read]
  · rintro s - es p ⟨hitems, hfailing⟩
    simp [source, Script.block, hitems, hfailing, Rules.accept]

end Script
end FileWarden
