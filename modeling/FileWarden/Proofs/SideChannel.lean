import FileWarden.Proofs.Calls
import FileWarden.Proofs.Journal
import FileWarden.Proofs.Sinks
import FileWarden.Source.Script

/-!
# The journal is a side channel

- **Live sessions** (`Session.live`): the sink is the log together with the journal. It comes to what
  the session comes to whose transcript is passed on (`Session.live_eq`).
- **Lines of the journal** (`LogLine.ofJournal`): no line of a session without a journal is one
  (`Session.not_ofJournal_run`).
- **Any store** (`Journal.filter_deliver`): to the log, a journal adds lines of its own. It adds
  none if every addition to its file succeeds, and one after each notice if every addition fails.
- **Three sessions** (`Session.journal_is_side_channel`): without a journal, with one that can be
  written, and with one that cannot.
-/

namespace FileWarden

variable {σ κ φ : Type}

/-! ## Live sessions -/

/-- What a session comes to, with the log and the files. -/
structure Session.Live (σ φ : Type) where
  summary : Summary
  source : σ
  /-- Whether the loop ended by itself. -/
  stopped : Bool
  log : List LogLine
  files : φ

/-- A session with a log and maybe a journal. -/
def Session.live [FileStore φ] (src : Source σ) (r : Rules) (journal : Option Journal) (reads : Nat)
    (source : σ) (token : Token) (files : φ) : Live σ φ :=
  let (summary, source, stopped, log, files) := runInto (Journal.emit journal) src r
    (journal.map Journal.path) reads source token ([], files)
  ⟨summary, source, stopped, log, files⟩

theorem Session.live_eq [FileStore φ] (src : Source σ) (r : Rules) (journal : Option Journal)
    (bound : Nat) (s : σ) (t : Token) (files : φ) :
    live src r journal bound s t files =
      let ended := run src r (journal.map Journal.path) bound s t
      let delivered := Journal.deliver journal files ended.transcript
      ⟨ended.summary, ended.source, ended.stopped, delivered.1, delivered.2⟩ := by
  simp only [live, runInto_eq, Journal.foldl_emit, List.nil_append]

/-! ## Lines of the journal -/

namespace LogLine

/-- How the lines about a journal begin, for each level. -/
def journalPrefix : Level → Option String
  | .normal => some "warning: journal "
  | .verbose => some "Journal: "
  | .debug => none

/-- Whether a line is about a journal. -/
def ofJournal (l : LogLine) : Bool :=
  (journalPrefix l.level).any fun p => p.toList.isPrefixOf l.text.toList

/-- A line that begins with other words is not about a journal. -/
theorem not_ofJournal {l : LogLine} (words : String) (h : ∃ rest, l.text = words ++ rest)
    (hapart : ∀ p ∈ journalPrefix l.level,
      ¬ p.toList <+: words.toList ∧ ¬ words.toList <+: p.toList) : l.ofJournal = false := by
  obtain ⟨rest, h⟩ := h
  cases hp : journalPrefix l.level with
  | none => simp [ofJournal, hp]
  | some p =>
    obtain ⟨hleft, hright⟩ := hapart p hp
    rw [ofJournal, hp, Option.any_some, ← Bool.not_eq_true, List.isPrefixOf_iff_prefix, h,
      String.toList_append]
    intro hprefix
    exact (List.prefix_or_prefix_of_prefix hprefix (List.prefix_append ..)).elim hleft hright

end LogLine

theorem Journal.ofJournal_warning (j : Journal) (e : WriteError) :
    (j.warning e).ofJournal = true := by
  simp [Journal.warning, LogLine.warning, LogLine.ofJournal, LogLine.journalPrefix]

theorem Session.ofJournal_journalLines (path : String) :
    (⟨.verbose, "Journal: " ++ path⟩ : LogLine).ofJournal = true := by
  simp [LogLine.ofJournal, LogLine.journalPrefix]

theorem Notice.not_ofJournal_message (n : Notice) : (LogLine.info n.message).ofJournal = false := by
  cases n with
  | violation =>
    refine LogLine.not_ofJournal "[VIOLATION " ?_ (by simp [LogLine.info, LogLine.journalPrefix])
    unfold LogLine.info Notice.message
    simp only [String.append_assoc]
    exact ⟨_, rfl⟩
  | blocked =>
    refine LogLine.not_ofJournal "*** PID " ?_ (by simp [LogLine.info, LogLine.journalPrefix])
    unfold LogLine.info Notice.message
    simp only [String.append_assoc]
    exact ⟨_, rfl⟩

/-- A warning that begins with other words is not about a journal. -/
theorem LogLine.not_ofJournal_warning (words : String) {text : String}
    (h : ∃ rest, text = words ++ rest)
    (hapart : ¬ "journal ".toList <+: words.toList ∧ ¬ words.toList <+: "journal ".toList) :
    (LogLine.warning text).ofJournal = false := by
  obtain ⟨rest, rfl⟩ := h
  refine not_ofJournal ("warning: " ++ words) ⟨rest, (String.append_assoc ..).symm⟩ ?_
  intro p hp
  obtain rfl : p = "warning: " ++ "journal " := by simpa [warning, journalPrefix] using hp.symm
  simp only [String.toList_append, List.prefix_append_right_inj]
  exact hapart

namespace Loop

variable (src : Source σ) (r : Rules)

/-- No line of an event is about a journal. -/
theorem not_ofJournal_entries (e : Event) (answer : Except BlockFailure Outcome × List Notice) :
    ∀ x ∈ entries e answer, x.logLine.ofJournal = false := by
  intro x hx
  simp only [entries, List.mem_append, List.mem_cons, List.mem_map] at hx
  obtain (rfl | ⟨n, -, rfl⟩) | ⟨f, -, rfl⟩ := hx
  · rfl
  · exact n.not_ofJournal_message
  · refine LogLine.not_ofJournal_warning "processing event: " ⟨_, rfl⟩ (by simp)

theorem not_ofJournal_turn (m : Loop σ) :
    ∀ x ∈ (m.turn src r).transcript, x.logLine.ofJournal = false := by
  cases h : (src.next m.source m.token).answer with
  | ok e =>
    rw [turn_of_event h]
    exact not_ofJournal_entries e _
  | error err =>
    by_cases hcancelled : err = .cancelled
    · subst hcancelled
      rw [turn_of_cancelled h]
      simp
    · rw [turn_of_failed h hcancelled]
      simp only [List.mem_singleton, forall_eq]
      exact LogLine.not_ofJournal_warning "reading event: " ⟨_, rfl⟩ (by simp)

theorem not_ofJournal_run (bound : Nat) (m : Loop σ) :
    ∀ x ∈ (m.run src r bound).transcript, x.logLine.ofJournal = false := by
  fun_induction run src r bound m with
  | case1 => simp
  | case2 => simp
  | case3 bound m => exact not_ofJournal_turn src r m
  | case4 bound m _ _ _ _ ih => exact List.forall_mem_append.mpr ⟨not_ofJournal_turn src r m, ih⟩

theorem not_ofJournal_complete (bound : Nat) (m : Loop σ) :
    ∀ x ∈ (m.complete src r bound).transcript, x.logLine.ofJournal = false := by
  have hstop (stats : Stats) : (stopLine stats).ofJournal = false := by
    refine LogLine.not_ofJournal "control loop stopped: events=" ?_
      (by simp [stopLine, LogLine.journalPrefix])
    simp only [stopLine, String.append_assoc]
    exact ⟨_, rfl⟩
  rw [complete, List.forall_mem_append, List.forall_mem_singleton]
  exact ⟨not_ofJournal_run src r bound m, hstop _⟩

end Loop

theorem Summary.not_ofJournal_lines (summary : Summary) :
    ∀ l ∈ summary.lines, l.ofJournal = false := by
  simp only [lines, List.forall_mem_cons, List.not_mem_nil, false_imp_iff, implies_true, and_true]
  constructor
  · refine LogLine.not_ofJournal "Total violations: " ?_
      (by simp [LogLine.info, LogLine.journalPrefix])
    simp only [LogLine.info, String.append_assoc]
    exact ⟨_, rfl⟩
  · exact LogLine.not_ofJournal "Blocked PIDs: " ⟨_, rfl⟩
      (by simp [LogLine.info, LogLine.journalPrefix])

namespace Session

variable (src : Source σ) (r : Rules) (bound : Nat) (s : σ) (t : Token)

/-- A journal adds a line in front of what happens in a session, and nothing else. -/
theorem run_journal (journal : Option String) :
    run src r journal bound s t =
      (run src r none bound s t).announced (journalLines journal) := by
  simp [run, announced, journalLines]

theorem not_ofJournal_closeLines (closed : Except SourceError Unit) :
    ∀ l ∈ closeLines closed, l.ofJournal = false := by
  cases closed with
  | ok => simp [closeLines]
  | error e =>
    rw [closeLines, List.forall_mem_singleton]
    exact LogLine.not_ofJournal_warning "closing event source: " ⟨_, rfl⟩ (by simp)

/-- No line of a session without a journal is about one. -/
theorem not_ofJournal_run :
    ∀ x ∈ (run src r none bound s t).transcript, x.logLine.ofJournal = false := by
  have hexiting : (LogLine.info "Exiting...").ofJournal = false := by decide
  simp only [run, journalLines, List.map_nil, List.nil_append, List.forall_mem_append,
    List.forall_mem_map, List.forall_mem_cons]
  exact ⟨Loop.not_ofJournal_complete src r bound _, ⟨hexiting, not_ofJournal_closeLines _⟩,
    Summary.not_ofJournal_lines _⟩

end Session

/-! ## Any store -/

namespace FileStore

variable [FileStore φ]

/-- A store after some additions to a file, whatever came of them. -/
def added (files : φ) (path : String) (additions : List (List UInt8)) : φ :=
  additions.foldl (fun files bytes => (append files path bytes).2) files

/-- Every addition to a file succeeds, whatever was added before. -/
def Accepts (files : φ) (path : String) : Prop :=
  ∀ additions bytes, (append (added files path additions) path bytes).1 = .ok ()

/-- Every addition to a file fails, whatever was tried before. -/
def Rejects (files : φ) (path : String) : Prop :=
  ∀ additions bytes, ∃ cause, (append (added files path additions) path bytes).1 = .error cause

/-- An addition to a file, failed or not, leaves the store as it is. -/
def Ignores (files : φ) (path : String) : Prop :=
  ∀ bytes, (append files path bytes).2 = files

variable {files : φ} {path : String}

theorem Accepts.append (h : Accepts files path) (bytes : List UInt8) :
    Accepts (append files path bytes).2 path := fun additions => h (bytes :: additions)

theorem Rejects.append (h : Rejects files path) (bytes : List UInt8) :
    Rejects (append files path bytes).2 path := fun additions => h (bytes :: additions)

theorem added_of_ignores (h : Ignores files path) (additions : List (List UInt8)) :
    added files path additions = files := by
  induction additions with
  | nil => rfl
  | cons bytes additions ih =>
    rw [added, List.foldl_cons, h bytes]
    exact ih

end FileStore

namespace MemoryFiles

variable {m : MemoryFiles}

theorem readOnly_added (m : MemoryFiles) (path : String) (additions : List (List UInt8)) :
    (FileStore.added m path additions).readOnly = m.readOnly := by
  induction additions generalizing m with
  | nil => rfl
  | cons bytes additions ih =>
    refine (ih (m.append path bytes).2).trans ?_
    rw [append]
    split <;> rfl

theorem accepts (h : m.readOnly = false) (path : String) : FileStore.Accepts m path := by
  intro additions bytes
  have hmode := (m.readOnly_added path additions).trans h
  simp [FileStore.append, append, hmode]

theorem rejects (h : m.readOnly = true) (path : String) : FileStore.Rejects m path := by
  intro additions bytes
  have hmode := (m.readOnly_added path additions).trans h
  simp [FileStore.append, append, hmode]

theorem ignores (h : m.readOnly = true) (path : String) : FileStore.Ignores m path := by
  intro bytes
  simp [FileStore.append, append, h]

end MemoryFiles

namespace Journal

variable [FileStore φ] {files : φ} (j : Journal)

/-- How a journal keeps a notice. -/
theorem keep_cases (files : φ) (n : Notice) :
    (j.keep files n).2 = (FileStore.append files j.path (j.bytes n)).2 ∧
    ((FileStore.append files j.path (j.bytes n)).1 = .ok () ∧ (j.keep files n).1 = [] ∨
      ∃ cause, (FileStore.append files j.path (j.bytes n)).1 = .error cause ∧
        (j.keep files n).1 = [j.warning ⟨cause⟩]) := by
  rw [keep, write]
  rcases FileStore.append files j.path (j.bytes n) with ⟨cause | _, files'⟩
  · exact ⟨rfl, .inr ⟨cause, rfl, rfl⟩⟩
  · exact ⟨rfl, .inl ⟨rfl, rfl⟩⟩

/-- What happens in a session, as a log with one warning right after each notice. -/
inductive Warned (j : Journal) : Transcript → List LogLine → Prop
  | nil : Warned j [] []
  | line (l : LogLine) {t log} : Warned j t log → Warned j (.line l :: t) (l :: log)
  | notice (n : Notice) (e : WriteError) {t log} : Warned j t log →
      Warned j (.notice n :: t) (.info n.message :: j.warning e :: log)

/-- The notices of a transcript are added to the file of a journal. -/
theorem files_deliver (files : φ) (t : Transcript) : (deliver (some j) files t).2 =
    FileStore.added files j.path (t.notices.map j.bytes) := by
  induction t generalizing files with
  | nil => rfl
  | cons e t ih =>
    cases e with
    | line l => exact ih files
    | notice n =>
      have hkeep := (j.keep_cases files n).1
      simp only [deliver, keepEntry, ih, hkeep]
      rfl

/-- To the log, a journal adds lines of its own. -/
theorem filter_deliver (files : φ) {t : Transcript} (h : ∀ x ∈ t, x.logLine.ofJournal = false) :
    (deliver (some j) files t).1.filter (!·.ofJournal) = t.log := by
  induction t generalizing files with
  | nil => rfl
  | cons e t ih =>
    obtain ⟨he, ht⟩ := List.forall_mem_cons.mp h
    have hwarnings : (keepEntry (some j) files e).1.filter (!·.ofJournal) = [] := by
      cases e with
      | line l => rfl
      | notice n =>
        rcases (j.keep_cases files n).2 with ⟨-, hkeep⟩ | ⟨cause, -, hkeep⟩
        · simp [keepEntry, hkeep]
        · simp [keepEntry, hkeep, j.ofJournal_warning]
    simp [deliver, List.filter_append, hwarnings, he, ih _ ht, Transcript.log]

theorem deliver_of_accepts (h : FileStore.Accepts files j.path) (t : Transcript) :
    (deliver (some j) files t).1 = t.log := by
  induction t generalizing files with
  | nil => rfl
  | cons e t ih =>
    cases e with
    | line l => exact congrArg (l :: ·) (ih h)
    | notice n =>
      have hsucceeds := h [] (j.bytes n)
      obtain ⟨hfiles, ⟨-, hkeep⟩ | ⟨cause, hfails, -⟩⟩ := j.keep_cases files n
      · have hrest := ih (h.append (j.bytes n))
        rw [← hfiles] at hrest
        simp only [deliver, keepEntry, hkeep, hrest]
        rfl
      · cases hfails.symm.trans hsucceeds

theorem warned_of_rejects (h : FileStore.Rejects files j.path) (t : Transcript) :
    Warned j t (deliver (some j) files t).1 := by
  induction t generalizing files with
  | nil => exact .nil
  | cons e t ih =>
    cases e with
    | line l => exact .line l (ih h)
    | notice n =>
      obtain ⟨cause, hfails⟩ := h [] (j.bytes n)
      obtain ⟨hfiles, ⟨hsucceeds, -⟩ | ⟨cause', -, hkeep⟩⟩ := j.keep_cases files n
      · cases hsucceeds.symm.trans hfails
      · have hrest := ih (h.append (j.bytes n))
        rw [← hfiles] at hrest
        simp only [deliver, keepEntry, hkeep]
        exact .notice n ⟨cause'⟩ hrest

/-- There is one warning for each notice. -/
theorem Warned.countP_ofJournal {j : Journal} {t : Transcript} {log : List LogLine}
    (h : Warned j t log) (hplain : ∀ x ∈ t, x.logLine.ofJournal = false) :
    log.countP LogLine.ofJournal = t.notices.length := by
  induction h with
  | nil => rfl
  | line l _ ih =>
    obtain ⟨hl, ht⟩ := List.forall_mem_cons.mp hplain
    have hl : ¬ l.ofJournal = true := Bool.eq_false_iff.mp hl
    rw [List.countP_cons_of_neg hl, ih ht]
    rfl
  | notice n e _ ih =>
    obtain ⟨hn, ht⟩ := List.forall_mem_cons.mp hplain
    have hn : ¬ (LogLine.info n.message).ofJournal = true := Bool.eq_false_iff.mp hn
    rw [List.countP_cons_of_neg hn, List.countP_cons_of_pos (j.ofJournal_warning e), ih ht]
    rfl

end Journal

/-! ## Three sessions -/

namespace Session

/-- A live session without the calls that were written down. -/
def Live.unrecorded (s : Live (σ × List Call) φ) : Live σ φ :=
  ⟨s.summary, s.source.1, s.stopped, s.log, s.files⟩

/-- A session that differs from one without a journal in the lines about the journal and in the
files at most. -/
structure Live.Shadows {ψ : Type} (kept : Live σ φ) (plain : Live σ ψ) : Prop where
  summary : kept.summary = plain.summary
  source : kept.source = plain.source
  stopped : kept.stopped = plain.stopped
  log : kept.log.filter (!·.ofJournal) = plain.log

variable {ψ ω : Type} [FileStore φ] [FileStore ψ] [FileStore ω] (src : Source σ) (r : Rules)
  (bound : Nat) (s : σ) (t : Token)

theorem live_recorded (journal : Option Journal) (files : φ) :
    live src r journal bound s t files =
      (live src.recorded r journal bound (s, []) t files).unrecorded := by
  rw [live_eq, live_eq, run_recorded]
  rfl

theorem live_none (files : φ) :
    live src r none bound s t files =
      let plain := run src r none bound s t
      ⟨plain.summary, plain.source, plain.stopped, plain.transcript.log, files⟩ := by
  simp only [live_eq, Option.map_none, Journal.deliver_none]

/-- A session with a journal, told of the session without one. -/
theorem live_some (j : Journal) (files : φ) :
    live src r (some j) bound s t files =
      let plain := run src r none bound s t
      let delivered := Journal.deliver (some j) files plain.transcript
      ⟨plain.summary, plain.source, plain.stopped, ⟨.verbose, "Journal: " ++ j.path⟩ :: delivered.1,
        delivered.2⟩ := by
  simp only [live_eq, Option.map_some, run_journal src r bound s t (some j.path)]
  rfl

/-- Whatever its store does, a journal is not seen outside of its lines and its file. -/
theorem live_some_shadows (j : Journal) (files : φ) (others : ψ) :
    (live src r (some j) bound s t files).Shadows (live src r none bound s t others) := by
  have hown := not_ofJournal_run src r bound s t
  have hannouncement : (⟨.verbose, "Journal: " ++ j.path⟩ : LogLine).ofJournal = true :=
    ofJournal_journalLines j.path
  rw [live_some, live_none]
  refine ⟨rfl, rfl, rfl, ?_⟩
  rw [List.filter_cons_of_neg (by simp [hannouncement])]
  exact j.filter_deliver files hown

/-- **The journal is a side channel.** Sessions without a journal, with one that can be written and
with one that cannot have the same summary, the same calls of the source, and the same log but for
the lines about the journal. One that cannot be written leaves a warning after each notice. -/
theorem journal_is_side_channel (j : Journal) (files : φ) {writable : ψ} {rejecting : ω}
    (hwritable : FileStore.Accepts writable j.path)
    (hrejecting : FileStore.Rejects rejecting j.path) :
    let transcript := (run src r none bound s t).transcript
    let announcement : LogLine := ⟨.verbose, "Journal: " ++ j.path⟩
    let plain := live src.recorded r none bound (s, []) t files
    let kept := live src.recorded r (some j) bound (s, []) t writable
    let refused := live src.recorded r (some j) bound (s, []) t rejecting
    (live src r none bound s t files = plain.unrecorded ∧
      live src r (some j) bound s t writable = kept.unrecorded ∧
      live src r (some j) bound s t rejecting = refused.unrecorded) ∧
    kept.Shadows plain ∧ refused.Shadows plain ∧
    (plain.log = transcript.log ∧ plain.log.filter (!·.ofJournal) = plain.log ∧
      plain.files = files) ∧
    (kept.log = announcement :: plain.log ∧
      kept.files = FileStore.added writable j.path (transcript.notices.map j.bytes)) ∧
    ∃ log, refused.log = announcement :: log ∧ j.Warned transcript log ∧
      log.countP LogLine.ofJournal = transcript.notices.length ∧
      (FileStore.Ignores rejecting j.path → refused.files = rejecting) := by
  intro transcript announcement plain kept refused
  have htranscript : (run src.recorded r none bound (s, []) t).transcript = transcript :=
    (congrArg Session.transcript (run_recorded src r none bound s t)).symm
  have hown : ∀ x ∈ transcript, x.logLine.ofJournal = false := not_ofJournal_run src r bound s t
  have hwarned : j.Warned transcript (Journal.deliver (some j) rejecting transcript).1 :=
    j.warned_of_rejects hrejecting transcript
  have hplain : plain.log = transcript.log := by
    simp only [plain, live_none, htranscript]
  refine ⟨⟨live_recorded .., live_recorded .., live_recorded ..⟩, live_some_shadows ..,
    live_some_shadows .., ⟨hplain, ?_, ?_⟩, ⟨?_, ?_⟩, _, ?_, hwarned, hwarned.countP_ofJournal hown,
    fun hignores => ?_⟩
  · rw [hplain, List.filter_eq_self, Transcript.log, List.forall_mem_map]
    exact fun x hx => by rw [hown x hx, Bool.not_false]
  · simp only [plain, live_none]
  · simp only [kept, live_some, htranscript, j.deliver_of_accepts hwritable, hplain]
    rfl
  · simp only [kept, live_some, htranscript, j.files_deliver]
  · simp only [refused, live_some, htranscript]
    rfl
  · simp only [refused, live_some, htranscript, j.files_deliver]
    exact FileStore.added_of_ignores hignores _

/-- A session in which a block, a read and the closing fail, and the journal as well. -/
theorem refused_journal_of_script :
    let secret (p : Pid) : Script.Item := .answer (.ok ⟨p, 0, "cat", "/etc/shadow", 0⟩)
    let script : Script := ⟨[secret 7, .answer (.error .closed), secret 8], [7], [], some "gone"⟩
    let r : Rules := ⟨Policy.ofTexts ["/etc/shadow"], 1, .all, by decide⟩
    let j : Journal := ⟨"/var/log/fence", ⟨1700000000, 5⟩⟩
    let journaled (readOnly : Bool) :=
      live Script.source.recorded r (some j) 4 (script, []) .fresh (⟨[], readOnly⟩ : MemoryFiles)
    let plain :=
      live Script.source.recorded r none 4 (script, []) .fresh (⟨[], false⟩ : MemoryFiles)
    FileStore.Accepts (⟨[], false⟩ : MemoryFiles) j.path ∧
    FileStore.Rejects (⟨[], true⟩ : MemoryFiles) j.path ∧
    (journaled false).Shadows plain ∧ (journaled true).Shadows plain ∧
    plain.summary.stats = ⟨2, 1, 1⟩ ∧ plain.summary.blocked = [7, 8] ∧
    (journaled true).log.countP LogLine.ofJournal = 4 ∧ (journaled true).files = ⟨[], true⟩ := by
  intro secret script r j journaled plain
  have hwritable : FileStore.Accepts (⟨[], false⟩ : MemoryFiles) j.path := MemoryFiles.accepts rfl _
  have hrejecting : FileStore.Rejects (⟨[], true⟩ : MemoryFiles) j.path := MemoryFiles.rejects rfl _
  obtain ⟨-, hkept, hrefused, -, -, log, hlog, -, hwarnings, hfiles⟩ := journal_is_side_channel
    Script.source r 4 script .fresh j (⟨[], false⟩ : MemoryFiles) hwritable hrejecting
  have hnotices : (run Script.source r none 4 script .fresh).transcript.notices.length = 3 := by
    dsimp only [r, script, secret]
    decide +kernel
  have hannouncement : LogLine.ofJournal ⟨.verbose, "Journal: " ++ j.path⟩ = true :=
    ofJournal_journalLines j.path
  refine ⟨hwritable, hrejecting, hkept, hrefused, ?_, ?_, ?_, hfiles (MemoryFiles.ignores rfl _)⟩
  · dsimp only [plain, r, script, secret]
    decide +kernel
  · dsimp only [plain, r, script, secret]
    decide +kernel
  · rw [hlog, List.countP_cons_of_pos hannouncement, hwarnings, hnotices]

end Session
end FileWarden
