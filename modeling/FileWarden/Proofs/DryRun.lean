import FileWarden.Proofs.Event.Recording
import FileWarden.Proofs.Journal.Entry
import FileWarden.Proofs.Sinks
import FileWarden.Proofs.Supply
import FileWarden.Proofs.Text.Utf8

/-!
# Dry runs

- **One dry run** (`dry_run_told_by_events`): the summary, the log and the files after it follow from
  the rules and the events of the recording. The journal is read back as the notices whose messages
  every reader of the log sees. The events were read before the journal was written, so the journal
  may be the recording itself.
- **Live sessions** (`dry_run_predicts_watch`): a dry run over a recording of events leaves what a
  session on a live source leaves that supplies them. The logs differ in the line that says where
  the events come from, and in the warning about a source that cannot be closed.
-/

namespace FileWarden

variable {σ ω : Type} {r : Rules} {es : List Event} {o : Options} {files : MemoryFiles}
  {path : String} {token : Token}

/-! ## Commands -/

namespace Command

theorem replayOn_eq {read : String → Except FileError String} (hrules : o.rules read = .ok r)
    (hevents : recording read path = .ok es) (src : Source σ) (reads : σ → Nat)
    (initial : List Event → σ) (token : Token) :
    replayOn src reads initial read path o token = .ok
      ((Session.run src r o.journal (reads (initial es)) (initial es) token).announced
        (r.banner ++ [replayLine es path])) := by
  simp only [replayOn, hrules, hevents, Except.mapError, bind, Except.bind]
  rfl

theorem replay_eq {read : String → Except FileError String} (hrules : o.rules read = .ok r)
    (hevents : recording read path = .ok es) (token : Token) :
    replay read path o token = .ok
      ((Session.run Replay.source r o.journal (es.length + 1) (.untilDrained es false)
        token).announced (r.banner ++ [replayLine es path])) :=
  replayOn_eq hrules hevents Replay.source Replay.reads (.untilDrained · false) token

theorem watch_eq {read : String → Except FileError String} (hrules : o.rules read = .ok r)
    {opener : Opener ω σ} {w : ω} {source : σ} (hopen : (opener w).1 = .ok source)
    (src : Source σ) (reads : σ → Nat) (token : Token) :
    (watch read src reads opener o token w).1 = .ok
      ((Session.run src r o.journal (reads source) source token).announced
        (r.banner ++ [watchLine])) := by
  rcases hw : opener w with ⟨answer, w'⟩
  rw [hw] at hopen
  obtain rfl : answer = .ok source := hopen
  simp only [watch, hrules, hw]

/-- A file with the text of a recording is read as its events. -/
theorem recording_written (hfile : files.get? path = some (Utf8.encode (Event.recordingText es).toList))
    (hbounds : ∀ e ∈ es, e.InBounds) : recording files.read path = .ok es := by
  have htext : files.read path = .ok (Event.recordingText es) := by
    simp [MemoryFiles.read, hfile, Utf8.decode_encode]
  simp only [recording, htext, Event.ofRecording_recordingText, Event.map_cut_of_inBounds hbounds]
  rfl

end Command

/-! ## Reports -/

theorem Rules.notices_course (r : Rules) (journal : Option String) (es : List Event) :
    (r.course journal es).notices = (r.reports es).flatMap (·.2) := by
  rw [course, Transcript.notices_append, Transcript.notices_append, Transcript.notices_map_line,
    Transcript.notices_map_line, notices_accept, List.nil_append, List.append_nil]

/-- The log of a session in which nothing fails, up to its closing. -/
theorem Rules.log_course (r : Rules) (journal : Option String) (es : List Event) :
    (r.course journal es).log = Session.journalLines journal ++
      (r.reports es).flatMap (fun (e, notices) => Loop.openLine e :: notices.map (.info ·.message)) ++
      [Loop.stopLine ⟨es.length, 0, 0⟩, .info "Exiting..."] := by
  have hentries : Transcript.log ((r.reports es).flatMap entries) = (r.reports es).flatMap
      fun (e, notices) => Loop.openLine e :: notices.map (.info ·.message) := by
    rw [Transcript.log, List.map_flatMap]
    simp [entries, Entry.logLine, Function.comp_def]
  rw [course, Transcript.log_append, Transcript.log_append, Transcript.log_map_line,
    Transcript.log_map_line, hentries]

theorem Rules.normal_banner (r : Rules) : r.banner.filter (·.level = .normal) = r.banner := by
  rw [banner]
  cases r.target <;> rfl

theorem Summary.normal_lines (s : Summary) : s.lines.filter (·.level = .normal) = s.lines := rfl

/-- Of such a log, every reader sees the messages of the notices and the last line. -/
theorem Rules.normal_log_course (r : Rules) (journal : Option String) (es : List Event) :
    (r.course journal es).log.filter (·.level = .normal) =
      ((r.reports es).flatMap (·.2)).map (.info ·.message) ++ [.info "Exiting..."] := by
  have hjournal : (Session.journalLines journal).filter (·.level = .normal) = [] := by
    cases journal <;> rfl
  have hreports (reports : List (Event × List Notice)) :
      (reports.flatMap fun (e, notices) =>
        Loop.openLine e :: notices.map (.info ·.message)).filter (·.level = .normal) =
      (reports.flatMap (·.2)).map (.info ·.message) := by
    rw [List.filter_flatMap, List.map_flatMap]
    refine List.flatMap_congr fun (e, notices) _ => ?_
    rw [List.filter_cons_of_neg (by simp [Loop.openLine]), List.filter_eq_self]
    simp [LogLine.info]
  rw [log_course, List.filter_append, List.filter_append, hjournal, hreports, List.nil_append]
  rfl

namespace Report

/-- The log of a session in which nothing fails, up to its closing, as `o` has it delivered. -/
def common (o : Options) (time : Instant) (readOnly : Bool) (r : Rules) (es : List Event) :
    List LogLine :=
  (r.course o.journal es).flatMap (Journal.shown (journal o time) readOnly)

/-- A session on a supply, and the report on it. -/
theorem ofSession_supplied {src : Source σ} {source : σ} (h : src.Supplies source es)
    (hfresh : token.cancelled = false) (r : Rules) {bound : Nat} (hbound : es.length < bound)
    (line : LogLine) (o : Options) (time : Instant) (files : MemoryFiles) :
    let last := ((Loop.start source token).complete src r bound).loop.source
    let s := (Session.run src r o.journal bound source token).announced (r.banner ++ [line])
    s.stopped = true ∧ s.source = (src.close last).2 ∧ s.summary = r.summary es ∧
    s.transcript.notices = (r.reports es).flatMap (·.2) ∧
    ofSession o time files (.ok s) =
      ⟨.ok (r.summary es),
        r.banner ++ line :: common o time files.readOnly r es ++
          Session.closeLines (src.close last).1 ++ (r.summary es).lines,
        Journal.keepAll (journal o time) files ((r.reports es).flatMap (·.2))⟩ := by
  intro last s
  have hrun := Session.run_supplied h hfresh r o.journal hbound
  have hs : s = _ := congrArg (Session.announced (r.banner ++ [line])) hrun
  have hnotices : s.transcript.notices = (r.reports es).flatMap (·.2) := by
    simp only [hs, Session.announced, Transcript.notices_append, Transcript.notices_map_line,
      r.notices_course, List.nil_append, List.append_nil]
  refine ⟨by rw [hs]; rfl, by rw [hs]; rfl, by rw [hs]; rfl, hnotices, ?_⟩
  rw [ofSession, Journal.deliver_eq, hnotices]
  simp only [hs, Session.announced, List.flatMap_append, Journal.flatMap_shown_line]
  simp [common, last]

/-- **What a dry run leaves.** If the options give rules and the file gives events, a dry run on
writable files comes to its end, and nothing fails. The journal gets a line for each notice, which is
read back as the notice; its message stands in the log, in the same place. The paths may be any, so
the journal may be the file of the events or that of the patterns. -/
theorem dry_run_told_by_events (files : MemoryFiles) (path : String) (o : Options) (time : Instant)
    (token : Token) {r : Rules} {es : List Event} (hwritable : files.readOnly = false)
    (hfresh : token.cancelled = false) (hrules : o.rules files.read = .ok r)
    (hevents : Command.recording files.read path = .ok es) :
    let report := ofReplay files path o time token
    let notices := (r.reports es).flatMap (·.2)
    ∃ session, Command.replay files.read path o token = .ok session ∧ session.stopped = true ∧
      report.result = .ok session.summary ∧
      session.summary.stats = ⟨es.length, 0, 0⟩ ∧
      session.summary.violations.toNat = ∑ᶠ p : Pid, min (r.violations p es) (2 ^ 32 - 1) ∧
      session.summary.offenders = {p | 1 ≤ r.violations p es}.ncard ∧
      (session.summary.blocked.Pairwise (· < ·) ∧
        ∀ p, p ∈ session.summary.blocked ↔ r.threshold.toNat ≤ r.violations p es) ∧
      session.transcript.notices = notices ∧
      report.log = r.banner ++ Command.replayLine es path :: Session.journalLines o.journal ++
        (r.reports es).flatMap (fun (e, ns) => Loop.openLine e :: ns.map (.info ·.message)) ++
        [Loop.stopLine ⟨es.length, 0, 0⟩, .info "Exiting..."] ++ session.summary.lines ∧
      report.log.filter (·.level = .normal) = r.banner ++ Command.replayLine es path ::
        notices.map (.info ·.message) ++ .info "Exiting..." :: session.summary.lines ∧
      (∀ j ∈ journal o time,
        let lines := notices.map fun n => (j.entry n).toJson
        (report.files.get? j.path).getD [] = (files.get? j.path).getD [] ++
          lines.flatMap (fun line => Utf8.encode line.toList ++ [10]) ∧
        (∀ line ∈ lines, '\n' ∉ line.toList ∧ 10 ∉ Utf8.encode line.toList) ∧
        lines.map JournalEntry.ofJson = notices.map fun n => .ok ⟨time.timestamp, n⟩) ∧
      (∀ p, (∀ j ∈ journal o time, Component.ofPath p ≠ Component.ofPath j.path) →
        report.files.get? p = files.get? p) ∧
      (notices = [] ∨ o.journal = none → report.files = files) := by
  intro report notices
  have hreplay := Command.replay_eq hrules hevents token
  obtain ⟨hstopped, -, hsummary, hnotices, hofSession⟩ := ofSession_supplied
    (Replay.supplies es) hfresh r (Nat.lt_succ_self es.length) (Command.replayLine es path) o time
    files
  have hreport : report = _ :=
    (ofReplay_eq files o time token path).trans
      ((congrArg (ofSession o time files) hreplay).trans hofSession)
  -- Of the files, all is said by the journal, or by there being none.
  have hkept : ∀ j ∈ journal o time, Journal.Kept j notices files report.files := by
    intro j hj
    rw [hreport, Option.mem_def.mp hj]
    exact Journal.kept_keepAll hwritable notices
  have hnone (h : journal o time = none) : report.files = files := by
    rw [hreport, h]
    rfl
  have hlog : report.log = r.banner ++ Command.replayLine es path :: (r.course o.journal es).log ++
      (r.summary es).lines := by
    rw [hreport, hwritable]
    simp only [common, Journal.flatMap_shown_of_writable]
    exact congrArg (· ++ _) (List.append_nil _)
  obtain ⟨hstats, hviolations, hoffenders, hblocked⟩ := r.summary_tells es
  rw [← hsummary] at hstats hviolations hoffenders hblocked hlog
  refine ⟨_, hreplay, hstopped, ?_, hstats, hviolations, hoffenders, hblocked, hnotices, ?_, ?_,
    fun j hj => ⟨?_, fun _ => Journal.newline_not_mem_line, ?_⟩, fun p hp => ?_, ?_⟩
  · rw [hreport, hsummary]
  · rw [hlog, r.log_course]
    simp only [List.append_assoc, List.cons_append]
  · have hline : (Command.replayLine es path).level = .normal := rfl
    rw [hlog, List.filter_append, List.filter_append, List.filter_cons_of_pos (by simp [hline]),
      r.normal_banner, r.normal_log_course, Summary.normal_lines]
    simp only [List.append_assoc, List.cons_append, List.nil_append]
    rfl
  · rw [(hkept j hj).content, j.flatMap_bytes_eq_lines]
  · obtain ⟨path, -, rfl⟩ := Option.map_eq_some_iff.mp (Option.mem_def.mp hj)
    exact Journal.lines_read_back _ notices
  · cases hj : journal o time with
    | none => rw [hnone hj]
    | some j => exact (hkept j hj).others p (hp j hj)
  · rintro (hnotices | ho)
    · cases hj : journal o time with
      | none => exact hnone hj
      | some j => exact (hkept j hj).unchanged hnotices
    · exact hnone (by rw [journal, ho]; rfl)

/-- A dry run that adds its journal to the recording it was read from. -/
theorem dry_run_into_recording :
    let secret (p : Pid) : Event := ⟨p, 0, "cat", "/etc/shadow", 0⟩
    let es := [secret 7, secret 8, secret 7]
    let files : MemoryFiles :=
      MemoryFiles.put ⟨[], false⟩ "/ev" (Utf8.encode (Event.recordingText es).toList)
    let o : Options := ⟨some "/etc/shadow", none, 2, 0, some "//ev"⟩
    let r : Rules := ⟨Policy.ofTexts ["/etc/shadow"], 2, .all, by decide⟩
    let time : Instant := ⟨1704067200, 0⟩
    let emitted : List Notice := [.violation 7 "cat" "/etc/shadow" 1 2,
      .violation 8 "cat" "/etc/shadow" 1 2, .violation 7 "cat" "/etc/shadow" 2 2,
      .blocked 7 "cat" 2]
    let shown : List String := [
      "Disallowed files: [\"/etc/shadow\"]",
      "Threshold: 2 file(s)",
      "Replaying 3 events from /ev",
      "[VIOLATION 1/2] PID 7 (cat) opened disallowed file: /etc/shadow",
      "[VIOLATION 1/2] PID 8 (cat) opened disallowed file: /etc/shadow",
      "[VIOLATION 2/2] PID 7 (cat) opened disallowed file: /etc/shadow",
      "*** PID 7 is now BLOCKED from opening any further files! ***",
      "Exiting..."]
    let added : List String := [
      "\x7b\"ts\":\"2024-01-01T00:00:00Z\",\"kind\":\"violation\",\"pid\":7,\"comm\":\"cat\"," ++
        "\"path\":\"/etc/shadow\",\"count\":1,\"threshold\":2\x7d",
      "\x7b\"ts\":\"2024-01-01T00:00:00Z\",\"kind\":\"violation\",\"pid\":8,\"comm\":\"cat\"," ++
        "\"path\":\"/etc/shadow\",\"count\":1,\"threshold\":2\x7d",
      "\x7b\"ts\":\"2024-01-01T00:00:00Z\",\"kind\":\"violation\",\"pid\":7,\"comm\":\"cat\"," ++
        "\"path\":\"/etc/shadow\",\"count\":2,\"threshold\":2\x7d",
      "\x7b\"ts\":\"2024-01-01T00:00:00Z\",\"kind\":\"blocked\",\"pid\":7,\"comm\":\"cat\"," ++
        "\"count\":2\x7d"]
    o.rules files.read = .ok r ∧ Command.recording files.read "/ev" = .ok es ∧
    (∃ summary, (ofReplay files "/ev" o time .fresh).result = .ok summary ∧
      summary.stats = ⟨3, 0, 0⟩ ∧ 7 ∈ summary.blocked ∧ 8 ∉ summary.blocked ∧
      (ofReplay files "/ev" o time .fresh).log.filter (·.level = .normal) =
        shown.map .info ++ summary.lines) ∧
    ((ofReplay files "/ev" o time .fresh).files.get? "//ev").getD [] =
      Utf8.encode (Event.recordingText es).toList ++
        added.flatMap (fun line => Utf8.encode line.toList ++ [10]) ∧
    added.map JournalEntry.ofJson = emitted.map fun n => .ok ⟨"2024-01-01T00:00:00Z", n⟩ := by
  intro secret es files o r time emitted shown added
  have hrules : o.rules files.read = .ok r := by decide +kernel
  have hbounds : ∀ e ∈ es, e.InBounds := by decide +kernel
  have hfile (p : String) (hp : Component.ofPath p = Component.ofPath "/ev") :
      files.get? p = some (Utf8.encode (Event.recordingText es).toList) :=
    (MemoryFiles.get?_put ..).trans (if_pos hp)
  have hevents : Command.recording files.read "/ev" = .ok es :=
    Command.recording_written (hfile "/ev" rfl) hbounds
  obtain ⟨session, -, -, hresult, hstats, -, -, hblocked, -, -, hlog, hjournal, -, -⟩ :=
    dry_run_told_by_events files "/ev" o time .fresh rfl rfl hrules hevents
  have hemitted : (r.reports es).flatMap (·.2) = emitted := by decide +kernel
  rw [hemitted] at hlog hjournal
  have hshown : r.banner ++ Command.replayLine es "/ev" :: emitted.map (.info ·.message) ++
      [.info "Exiting..."] = shown.map .info := by decide +kernel
  have hadded : emitted.map (fun n => (Journal.entry ⟨"//ev", time⟩ n).toJson) = added := by
    decide +kernel
  have htime : time.timestamp = "2024-01-01T00:00:00Z" := by decide +kernel
  obtain ⟨hcontent, -, hread⟩ := hjournal ⟨"//ev", time⟩ rfl
  rw [hadded, hfile "//ev" (by decide +kernel), Option.getD_some] at hcontent
  rw [hadded, htime] at hread
  have hseven : r.threshold.toNat ≤ r.violations 7 es := by decide +kernel
  have height : ¬ r.threshold.toNat ≤ r.violations 8 es := by decide +kernel
  refine ⟨hrules, hevents, ⟨_, hresult, hstats, (hblocked.2 7).mpr hseven,
    fun h => height ((hblocked.2 8).mp h), ?_⟩, hcontent, hread⟩
  rw [hlog, List.append_cons, hshown]

/-- **A dry run predicts a live session.** The live source supplies some events, and the dry run
reads a recording of them. Summary, notices and files are the same. Only the line after the rules
tells the logs apart, and the warning about a live source that fails to close. -/
theorem dry_run_predicts_watch (files recorded : MemoryFiles) (path : String) (o : Options)
    (time : Instant) (token : Token) (src : Source σ) (reads : σ → Nat)
    (opener : Command.Opener ω σ) (w : ω) {source : σ} {r : Rules} {es : List Event}
    (hfresh : token.cancelled = false) (hmode : files.readOnly = recorded.readOnly)
    (hrules : o.rules files.read = .ok r) (hrecorded : o.rules recorded.read = .ok r)
    (hfile : recorded.get? path = some (Utf8.encode (Event.recordingText es).toList))
    (hbounds : ∀ e ∈ es, e.InBounds) (hopen : (opener w).1 = .ok source)
    (hsupplies : src.Supplies source es) (hreads : es.length < reads source) :
    let live := ofWatch files src reads opener o time token w
    let dry := ofReplay recorded path o time token
    let last := ((Loop.start source token).complete src r (reads source)).loop.source
    ∃ (lived : Session σ) (dried : Session Replay) (common : List LogLine),
      (Command.watch files.read src reads opener o token w).1 = .ok lived ∧
      Command.replay recorded.read path o token = .ok dried ∧
      lived.stopped = true ∧ dried.stopped = true ∧ lived.source = (src.close last).2 ∧
      live.result = .ok lived.summary ∧ dry.result = .ok lived.summary ∧
      lived.transcript.notices = dried.transcript.notices ∧
      (∀ p, files.get? p = recorded.get? p → live.files.get? p = dry.files.get? p) ∧
      live.log = r.banner ++ Command.watchLine :: common ++
        Session.closeLines (src.close last).1 ++ lived.summary.lines ∧
      dry.log = r.banner ++ Command.replayLine es path :: common ++ lived.summary.lines := by
  intro live dry last
  have hevents := Command.recording_written hfile hbounds
  have hwatch := Command.watch_eq hrules hopen src reads token
  have hreplay := Command.replay_eq hrecorded hevents token
  obtain ⟨hlived, hclosed, hsummary, hnotices, hlive⟩ := ofSession_supplied hsupplies hfresh r
    hreads Command.watchLine o time files
  obtain ⟨hdried, -, -, hnotices', hdry⟩ := ofSession_supplied (Replay.supplies es) hfresh r
    (Nat.lt_succ_self es.length) (Command.replayLine es path) o time recorded
  replace hlive : live = _ := (ofWatch_eq files o time token src reads opener w).trans
    ((congrArg (ofSession o time files) hwatch).trans hlive)
  replace hdry : dry = _ := (ofReplay_eq recorded o time token path).trans
    ((congrArg (ofSession o time recorded) hreplay).trans hdry)
  refine ⟨_, _, common o time files.readOnly r es, hwatch, hreplay, hlived, hdried, hclosed,
    ?_, ?_, hnotices.trans hnotices'.symm, fun p hp => ?_, ?_, ?_⟩
  · rw [hlive, hsummary]
  · rw [hdry, hsummary]
  · rw [hlive, hdry]
    exact Journal.get?_keepAll_congr hmode hp _ _
  · rw [hlive, hsummary]
  · rw [hdry, hsummary, hmode]
    simp only [List.append_assoc]
    rfl

/-- A script that closes without failing, and a dry run over a recording of its events: both logs go
on alike after the line that tells them apart. -/
theorem dry_run_predicts_script :
    let secret (p : Pid) : Event := ⟨p, 0, "cat", "/etc/shadow", 0⟩
    let es := [secret 7, secret 8, secret 7]
    let files : MemoryFiles :=
      MemoryFiles.put ⟨[], false⟩ "/ev" (Utf8.encode (Event.recordingText es).toList)
    let o : Options := ⟨some "/etc/shadow", none, 2, 0, some "/j"⟩
    let r : Rules := ⟨Policy.ofTexts ["/etc/shadow"], 2, .all, by decide⟩
    let time : Instant := ⟨1704067200, 0⟩
    let script : Script := ⟨es.map (.answer <| .ok ·), [], [], none⟩
    let opener : Command.Opener Unit Script := fun _ => (.ok script, ())
    o.rules files.read = .ok r ∧ (∀ e ∈ es, e.InBounds) ∧ Script.source.Supplies script es ∧
    (ofWatch files Script.source Script.reads opener o time .fresh ()).result =
      (ofReplay files "/ev" o time .fresh).result ∧
    (ofWatch files Script.source Script.reads opener o time .fresh ()).files.get? "/j" =
      (ofReplay files "/ev" o time .fresh).files.get? "/j" ∧
    ∃ common, (ofWatch files Script.source Script.reads opener o time .fresh ()).log =
        r.banner ++ Command.watchLine :: common ∧
      (ofReplay files "/ev" o time .fresh).log =
        r.banner ++ Command.replayLine es "/ev" :: common := by
  intro secret es files o r time script opener
  have hrules : o.rules files.read = .ok r := by decide +kernel
  have hbounds : ∀ e ∈ es, e.InBounds := by decide +kernel
  have hfile : files.get? "/ev" = some (Utf8.encode (Event.recordingText es).toList) :=
    (MemoryFiles.get?_put ..).trans (if_pos rfl)
  have hsupplies : Script.source.Supplies script es := Script.supplies es none
  obtain ⟨lived, dried, common, -, -, -, -, -, hlive, hdry, -, hfiles, hlog, hlog'⟩ :=
    dry_run_predicts_watch files files "/ev" o time .fresh Script.source Script.reads opener () rfl
      rfl hrules hrules hfile hbounds rfl hsupplies (by decide)
  have hclosed : (Script.source.close ((Loop.start script .fresh).complete Script.source r
      script.reads).loop.source).1 = .ok () := by decide +kernel
  rw [hclosed] at hlog
  refine ⟨hrules, hbounds, hsupplies, hlive.trans hdry.symm, hfiles "/j" rfl,
    common ++ lived.summary.lines, ?_, ?_⟩
  · rw [hlog]
    simp [Session.closeLines]
  · rw [hlog']
    simp

/-- A source that fails to close supplies its events all the same. The warning about it has no
counterpart in the log of the dry run. -/
theorem failed_close_has_no_counterpart :
    let es : List Event := [⟨7, 0, "cat", "/etc/shadow", 0⟩]
    let files : MemoryFiles :=
      MemoryFiles.put ⟨[], false⟩ "/ev" (Utf8.encode (Event.recordingText es).toList)
    let o : Options := ⟨some "/etc/shadow", none, 2, 0, none⟩
    let r : Rules := ⟨Policy.ofTexts ["/etc/shadow"], 2, .all, by decide⟩
    let time : Instant := ⟨1704067200, 0⟩
    let script : Script := ⟨es.map (.answer <| .ok ·), [], [], some "link already detached"⟩
    let opener : Command.Opener Unit Script := fun _ => (.ok script, ())
    let live := ofWatch files Script.source Script.reads opener o time .fresh ()
    let dry := ofReplay files "/ev" o time .fresh
    o.rules files.read = .ok r ∧ (∀ e ∈ es, e.InBounds) ∧
    files.get? "/ev" = some (Utf8.encode (Event.recordingText es).toList) ∧
    Script.source.Supplies script es ∧
    LogLine.warning "closing event source: failed to read event: link already detached" ∈ live.log ∧
    ¬ ∃ common, live.log = r.banner ++ Command.watchLine :: common ∧
      dry.log = r.banner ++ Command.replayLine es "/ev" :: common := by
  intro es files o r time script opener live dry
  have hwatched : live = ofSession o time files
      (Command.watch files.read Script.source Script.reads opener o .fresh ()).1 :=
    ofWatch_eq ..
  have hreplayed : dry = ofSession o time files (Command.replay files.read "/ev" o .fresh) :=
    ofReplay_eq ..
  rw [hwatched, hreplayed]
  refine ⟨by decide +kernel, by decide +kernel, (MemoryFiles.get?_put ..).trans (if_pos rfl),
    Script.supplies es _, by decide +kernel, ?_⟩
  have hlive : live.log.length = 10 := by
    rw [hwatched]
    decide +kernel
  have hdry : dry.log.length = 9 := by
    rw [hreplayed]
    decide +kernel
  rw [← hwatched, ← hreplayed]
  rintro ⟨common, hwatch, hreplay⟩
  rw [hwatch, List.length_append, List.length_cons] at hlive
  rw [hreplay, List.length_append, List.length_cons] at hdry
  omega

end Report
end FileWarden
