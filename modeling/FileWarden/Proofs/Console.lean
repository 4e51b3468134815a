import FileWarden.Proofs.Event.Recording
import FileWarden.Proofs.Reports

/-!
# Notices on a console

A console shows the messages of notices, and an operator reads it line by line. The command name and
the path of an event stand in a message as they are.

- **Messages** (`Notice.lines_eq`): a message begins with words of the program, which hold no
  newline. So its first line tells of which kind the notice is. The lines behind it are stray: they
  are texts of the event.
- **Consoles** (`Notice.filter_lines_eq_iff`): the lines of some look are those of the notices of
  one kind if no stray line looks alike, and only then.
- **Runs** (`Rules.console_lines`): the stray lines of a run are told by its violations.
-/

namespace FileWarden

variable {n : Notice} {ns : List Notice}

namespace Notice

/-! ## Messages -/

/-- Whether a notice is about a block. -/
def isBlocked : Notice → Bool
  | violation .. => false
  | blocked .. => true

/-- The beginning of a message, up to the texts of the event. -/
def frame : Notice → String
  | violation pid _ _ count threshold =>
    "[VIOLATION " ++ toString count ++ "/" ++ toString threshold ++ "] PID " ++ toString pid ++ " ("
  | blocked pid comm count => (blocked pid comm count).message

/-- The rest of a message. -/
def words : Notice → String
  | violation _ comm path _ _ => comm ++ ") opened disallowed file: " ++ path
  | blocked .. => ""

/-- The lines of a message. -/
def lines (n : Notice) : List (List Char) := Text.splitOn '\n' n.message.toList

/-- The first line of a message. -/
def firstLine (n : Notice) : List Char :=
  n.frame.toList ++ (Text.splitOn '\n' n.words.toList).headI

/-- The lines of a message behind the first. -/
def stray (n : Notice) : List (List Char) := (Text.splitOn '\n' n.words.toList).tail

/-- Whether a line looks like the message about a block. -/
def looksBlocked (line : List Char) : Bool := "*** PID ".toList.isPrefixOf line

/-- Whether a line looks like the message about a violation. -/
def looksViolation (line : List Char) : Bool := "[VIOLATION ".toList.isPrefixOf line

theorem message_eq (n : Notice) : n.message = n.frame ++ n.words := by
  cases n with
  | violation =>
    dsimp only [message, frame, words]
    simp only [String.append_assoc]
  | blocked => exact (String.append_empty).symm

theorem newline_not_mem_number (c : UInt32) : '\n' ∉ (toString c).toList := by
  have hdigits : (toString c.toNat).toList = Json.writeNat c.toNat := by
    rw [Nat.toString_eq_repr, Nat.repr, String.toList_ofList, Json.writeNat]
  have hnumber : toString c = toString c.toNat := rfl
  rw [hnumber, hdigits]
  exact Json.newline_not_mem_writeNat c.toNat

theorem newline_not_mem_frame (n : Notice) : '\n' ∉ n.frame.toList := by
  cases n with
  | violation =>
    dsimp only [frame]
    simp [String.toList_append, newline_not_mem_number]
  | blocked =>
    dsimp only [frame, message]
    simp [String.toList_append, newline_not_mem_number]

theorem lines_eq (n : Notice) : n.lines = n.firstLine :: n.stray := by
  rw [lines, message_eq, String.toList_append,
    Text.splitOn_append_of_not_mem (newline_not_mem_frame n), firstLine, stray]
  cases h : Text.splitOn '\n' n.words.toList with
  | nil => exact absurd h (Text.splitOn_ne_nil _ _)
  | cons part parts => rfl

/-- A first line begins as the messages of its kind do. -/
theorem exists_firstLine (n : Notice) : ∃ rest, n.firstLine =
    (if n.isBlocked then "*** PID ".toList else "[VIOLATION ".toList) ++ rest := by
  cases n with
  | violation =>
    dsimp only [firstLine, frame]
    simp only [String.toList_append, List.append_assoc]
    exact ⟨_, rfl⟩
  | blocked =>
    dsimp only [firstLine, frame, message]
    simp only [String.toList_append, List.append_assoc]
    exact ⟨_, rfl⟩

theorem looksBlocked_firstLine (n : Notice) : looksBlocked n.firstLine = n.isBlocked := by
  obtain ⟨rest, hrest⟩ := n.exists_firstLine
  rw [hrest]
  cases n.isBlocked <;> rfl

theorem looksViolation_firstLine (n : Notice) : looksViolation n.firstLine = !n.isBlocked := by
  obtain ⟨rest, hrest⟩ := n.exists_firstLine
  rw [hrest]
  cases n.isBlocked <;> rfl

theorem firstLine_of_stray (h : n.stray = []) : n.firstLine = n.message.toList := by
  have hlines : n.lines = [n.firstLine] := by rw [lines_eq, h]
  have hnewline : '\n' ∉ n.message.toList := by
    rw [← Text.tail_splitOn_eq_nil_iff]
    exact congrArg List.tail hlines
  exact List.head_eq_of_cons_eq (hlines.symm.trans (Text.splitOn_of_not_mem hnewline))

theorem stray_of_isBlocked (h : n.isBlocked = true) : n.stray = [] := by
  cases n with
  | violation => cases h
  | blocked => rfl

/-! ## Consoles -/

/-- The lines that a console shows of notices; an empty one stands behind the last newline. -/
def consoleLines (reader : Level) (ns : List Notice) : List (List Char) :=
  Text.splitOn '\n' (logText reader (Transcript.log (ns.map .notice))).toList

theorem consoleLines_eq (reader : Level) (ns : List Notice) :
    consoleLines reader ns = ns.flatMap lines ++ [[]] := by
  have hshown : (Transcript.log (ns.map .notice)).filter (reader.shows ·.level) =
      Transcript.log (ns.map .notice) := by
    rw [List.filter_eq_self, Transcript.log, List.map_map, List.forall_mem_map]
    intro n _
    cases reader <;> rfl
  have htext : (logText reader (Transcript.log (ns.map .notice))).toList =
      (ns.map (·.message.toList)).flatMap (· ++ ['\n']) := by
    rw [logText, hshown, String.toList_join, Transcript.log]
    simp [List.flatMap_map, Entry.logLine, LogLine.info]
  rw [consoleLines, htext, Text.splitOn_ended, List.flatMap_map]
  rfl

section Kinds

variable {looks : List Char → Bool} {kind : Notice → Bool}
  (h : ∀ n : Notice, looks n.firstLine = kind n)
include h

/-- The lines of some look are the notices of one kind, and stray lines. -/
theorem countP_lines (ns : List Notice) :
    (ns.flatMap lines).countP looks = ns.countP kind + (ns.flatMap stray).countP looks := by
  induction ns with
  | nil => rfl
  | cons n ns ih =>
    simp only [List.flatMap_cons, lines_eq, List.countP_append, List.countP_cons, h] at ih ⊢
    omega

theorem filter_lines_of_stray (hstray : ∀ l ∈ ns.flatMap stray, looks l = false) :
    (ns.flatMap lines).filter looks = (ns.filter kind).map firstLine := by
  induction ns with
  | nil => rfl
  | cons n ns ih =>
    obtain ⟨hn, hns⟩ := List.forall_mem_append.mp hstray
    have hnone : n.stray.filter looks = [] := by simpa using hn
    rw [List.flatMap_cons, lines_eq, List.filter_append, ih hns, List.filter_cons, h, hnone,
      List.filter_cons]
    split <;> simp

theorem filter_lines_eq_iff :
    (ns.flatMap lines).filter looks = (ns.filter kind).map firstLine ↔
      ∀ l ∈ ns.flatMap stray, looks l = false := by
  refine ⟨fun heq => ?_, filter_lines_of_stray h⟩
  -- Both sides are equally long, so no stray line is counted.
  have hcount := countP_lines h ns
  have hlength := congrArg List.length heq
  rw [List.length_map, ← List.countP_eq_length_filter, ← List.countP_eq_length_filter] at hlength
  have hnone : (ns.flatMap stray).countP looks = 0 := by omega
  simpa using hnone

end Kinds

theorem length_lines (ns : List Notice) :
    (ns.flatMap lines).length = ns.length + (ns.flatMap stray).length := by
  induction ns with
  | nil => rfl
  | cons n ns ih =>
    simp only [List.flatMap_cons, lines_eq, List.length_append, List.length_cons] at ih ⊢
    omega

/-- Each message is one line if there are no stray lines, and only then. -/
theorem lines_eq_messages_iff :
    ns.flatMap lines = ns.map (·.message.toList) ↔ ns.flatMap stray = [] := by
  refine ⟨fun h => ?_, fun h => ?_⟩
  · have hlength := length_lines ns
    rw [h, List.length_map] at hlength
    exact List.length_eq_zero_iff.mp (by omega)
  · rw [List.map_eq_flatMap]
    refine List.flatMap_congr fun n hn => ?_
    have hstray : n.stray = [] := List.flatMap_eq_nil_iff.mp h n hn
    rw [lines_eq, hstray, firstLine_of_stray hstray]

end Notice

/-! ## Runs -/

/-- The stray lines in the message about a violation. -/
def Event.stray (e : Event) : List (List Char) :=
  (Notice.violation e.pid e.comm e.path 0 0).stray

namespace Event

theorem stray_eq_nil_iff {e : Event} :
    e.stray = [] ↔ '\n' ∉ e.comm.toList ∧ '\n' ∉ e.path.toList := by
  rw [stray, Notice.stray, Text.tail_splitOn_eq_nil_iff]
  dsimp only [Notice.words]
  simp [String.toList_append]

/-- A path may hold any line behind its beginning. -/
theorem mem_stray (e : Event) {line : List Char} (h : '\n' ∉ line) :
    line ∈ stray { e with path := e.path ++ "\n" ++ String.ofList line } := by
  rw [stray, Notice.stray]
  dsimp only [Notice.words]
  have hnewline : "\n".toList = ['\n'] := rfl
  rw [← String.append_assoc, ← String.append_assoc, String.toList_append, String.toList_append,
    List.append_assoc, hnewline, String.toList_ofList, List.singleton_append,
    Text.splitOn_append_sep, Text.splitOn_of_not_mem h,
    List.tail_append_of_ne_nil (Text.splitOn_ne_nil _ _)]
  exact List.mem_append_right _ List.mem_cons_self

end Event

namespace Rules

variable {σ : Type} {r : Rules}

theorem stray_noticesAt (before : List Event) (e : Event) (b : Except SourceError Unit) :
    (r.noticesAt before e b).flatMap Notice.stray = if r.violatedBy e then e.stray else [] := by
  unfold noticesAt
  cases r.violatedBy e with
  | false => rfl
  | true =>
    cases r.crosses before e && b.isOk with
    | false => exact List.append_nil _
    | true => exact List.append_nil _

/-- The stray lines of a run are those of its violations. -/
theorem stray_run (block : σ → Pid → Except SourceError Unit × σ) (s : σ) (es : List Event) :
    (r.run block .empty s es).notices.flatMap Notice.stray =
      (es.filter r.violatedBy).flatMap Event.stray := by
  induction es using List.reverseRecOn with
  | nil => rfl
  | append_singleton es e ih =>
    rw [notices_concat, List.flatMap_append, ih, stray_noticesAt, List.filter_append,
      List.flatMap_append, List.filter_singleton]
    cases r.violatedBy e with
    | false => rfl
    | true => exact congrArg _ (List.append_nil _).symm

/-- **What a console shows of a run.** It shows the lines of the messages, in order: one line for
each notice, and the stray lines of the violations, of which a path or a command name may hold any.
Lines that look like a block or a violation are the messages of these exactly if no stray line looks
so. -/
theorem console_lines (r : Rules) (block : σ → Pid → Except SourceError Unit × σ) (s : σ)
    (es : List Event) (reader : Level) :
    let notices := (r.run block .empty s es).notices
    let shown := Notice.consoleLines reader notices
    let stray := (es.filter r.violatedBy).flatMap Event.stray
    shown = notices.flatMap Notice.lines ++ [[]] ∧
    shown.length = notices.length + stray.length + 1 ∧
    (shown = notices.map (·.message.toList) ++ [[]] ↔
      ∀ e ∈ es, r.violatedBy e = true → '\n' ∉ e.comm.toList ∧ '\n' ∉ e.path.toList) ∧
    (shown.filter Notice.looksBlocked =
        (notices.filter (·.isBlocked)).map (·.message.toList) ↔
      ∀ line ∈ stray, Notice.looksBlocked line = false) ∧
    (shown.filter Notice.looksViolation =
        (notices.filter (!·.isBlocked)).map (·.firstLine) ↔
      ∀ line ∈ stray, Notice.looksViolation line = false) ∧
    ∀ (e : Event) (line : List Char), '\n' ∉ line →
      line ∈ Event.stray { e with path := e.path ++ "\n" ++ String.ofList line } := by
  intro notices shown stray
  have hshown : shown = notices.flatMap Notice.lines ++ [[]] :=
    Notice.consoleLines_eq reader notices
  have hstray : notices.flatMap Notice.stray = stray := r.stray_run block s es
  -- The empty line at the end has no look.
  have hfilter (looks : List Char → Bool) (hlooks : looks [] = false) :
      shown.filter looks = (notices.flatMap Notice.lines).filter looks := by
    rw [hshown, List.filter_append, List.filter_cons_of_neg (by simp [hlooks]), List.filter_nil,
      List.append_nil]
  refine ⟨hshown, ?_, ?_, ?_, ?_, fun e line => e.mem_stray⟩
  · rw [hshown, List.length_append, Notice.length_lines, hstray]
    rfl
  · rw [hshown, List.append_left_inj, Notice.lines_eq_messages_iff, hstray,
      List.flatMap_eq_nil_iff]
    simp only [List.mem_filter, and_imp, Event.stray_eq_nil_iff]
  · have hmessages : (notices.filter (·.isBlocked)).map (·.message.toList) =
        (notices.filter (·.isBlocked)).map Notice.firstLine := by
      refine List.map_congr_left fun n hn => ?_
      exact (Notice.firstLine_of_stray (Notice.stray_of_isBlocked (List.mem_filter.mp hn).2)).symm
    rw [hfilter _ rfl, hmessages, Notice.filter_lines_eq_iff Notice.looksBlocked_firstLine, hstray]
  · rw [hfilter _ rfl, Notice.filter_lines_eq_iff Notice.looksViolation_firstLine, hstray]

/-- A path within the bounds that looks, behind a newline, like the message about the block of
another process. Nothing was blocked. -/
theorem path_forges_block :
    let forged := (Notice.blocked 1 "init" 2).message
    let e : Event := ⟨7, 0, "cat", "/etc/x\n" ++ forged, 0⟩
    let r : Rules := ⟨Policy.ofTexts ["/etc"], 2, .all, by decide⟩
    let granted (_ : Unit) (_ : Pid) : Except SourceError Unit × Unit := (.ok (), ())
    let run := r.run granted .empty () [e]
    let shown := Notice.consoleLines .normal run.notices
    e.InBounds ∧ run.ledger.blocked = [] ∧ run.notices = [.violation 7 "cat" e.path 1 2] ∧
    shown.filter Notice.looksBlocked = [forged.toList] ∧
    shown.filter Notice.looksBlocked ≠
      (run.notices.filter (·.isBlocked)).map (·.message.toList) ∧
    shown ≠ run.notices.map (·.message.toList) ++ [[]] := by
  intro forged e r granted run shown
  have hnotices : run.notices = [.violation 7 "cat" e.path 1 2] := by decide +kernel
  have hblocked : shown.filter Notice.looksBlocked = [forged.toList] := by decide +kernel
  refine ⟨by decide +kernel, by decide +kernel, hnotices, hblocked, ?_, by decide +kernel⟩
  rw [hblocked, hnotices]
  exact List.cons_ne_nil _ _

end Rules
end FileWarden
