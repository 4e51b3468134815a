import FileWarden.Event.Lines
import FileWarden.Proofs.Text.Trimmed

/-!
# Faults of recordings

A recording is read as a whole or not at all. The line that is reported is counted among all lines,
wherever the text was put together.

- **Lines** (`Text.lines`): a text has a line for each newline, and one more if there is something
  behind the last. A carriage return before a newline does not count. A recording is read by these
  lines (`ofRecording_eq_ofLines_lines`): an empty line at its end and carriage returns hold nothing.
- **One line** (`onLine`): what stands on a line, from which reading goes on (`ofLines_cons`).
- **More lines** (`ofLines_append`, `ofLines_add`): lines that come after others have higher numbers,
  and are read if nothing before them is at fault.
- **The first fault** (`ofLines_eq_error_iff`): the line that is reported is at fault and no line
  before it is.
- **Recordings** (`ofRecording_by_line`): all of this of texts.
-/

namespace FileWarden

/-! ## Lines -/

namespace Text

/-- A line without the carriage return at its end. -/
def dropReturn (line : List Char) : List Char :=
  if line.getLast? = some '\r' then line.dropLast else line

/-- The lines of a text. A newline ends a line, alone or behind a carriage return. What comes behind
the last newline is a line if it is not empty. -/
def lines (cs : List Char) : List (List Char) :=
  let parts := splitOn '\n' cs
  parts.dropLast.map dropReturn ++ parts.getLast?.toList.filter (· ≠ [])

/-- The last line need not be ended, and a carriage return elsewhere stays. -/
example : lines "a\r\n\n\rb".toList = [['a'], [], ['\r', 'b']] := by decide

theorem trim_dropReturn (line : List Char) : trim (dropReturn line) = trim line := by
  unfold dropReturn
  split
  · rename_i hlast
    obtain ⟨cs, rfl⟩ := List.getLast?_eq_some_iff.mp hlast
    rw [List.dropLast_concat, trim_append_blanks]
    simp [isBlank]
  · rfl

end Text

namespace Event

variable {line : List Char} {lines before after : List (List Char)} {cause : Json.Error}

/-! ## One line -/

/-- What stands on a line: an event, or nothing if it is blank or a comment. -/
def onLine (line : List Char) : Except Json.Error (Option Event) :=
  if Policy.isEntry (Text.trim line) then
    (ofJson (String.ofList (Text.trim line))).map fun e => some e.cut
  else .ok none

/-- A line is at fault: without the blanks around it, it is not empty, no comment and no event. -/
def Faulty (line : List Char) (cause : Json.Error) : Prop :=
  let text := Text.trim line
  text ≠ [] ∧ text.head? ≠ some '#' ∧ ofJson (String.ofList text) = .error cause

/-- A line is not at fault. -/
def Faultless (line : List Char) : Prop := ∀ cause, ¬ Faulty line cause

theorem onLine_eq_error_iff : onLine line = .error cause ↔ Faulty line cause := by
  unfold onLine Faulty
  by_cases hentry : Policy.isEntry (Text.trim line) = true
  · have hparts : Text.trim line ≠ [] ∧ (Text.trim line).head? ≠ some '#' := by
      simpa [Policy.isEntry] using hentry
    rw [if_pos hentry]
    cases hread : ofJson (String.ofList (Text.trim line)) <;> simp [Except.map, hparts, hread]
  · have hparts : Text.trim line ≠ [] → (Text.trim line).head? = some '#' := by
      simpa [Policy.isEntry] using hentry
    rw [if_neg hentry]
    constructor
    · intro h
      cases h
    · rintro ⟨hne, hcomment, -⟩
      exact absurd (hparts hne) hcomment

theorem faultless_iff : Faultless line ↔ ∃ e, onLine line = .ok e := by
  unfold Faultless
  simp only [← onLine_eq_error_iff]
  cases onLine line <;> simp

/-- Reading goes on after a line that is not at fault. -/
theorem ofLines_cons (n : Nat) (line : List Char) (lines : List (List Char)) :
    ofLines n (line :: lines) = match onLine line with
      | .ok e => (ofLines (n + 1) lines).map (e.toList ++ ·)
      | .error cause => .error ⟨n, cause⟩ := by
  unfold onLine
  rw [ofLines]
  split
  · cases ofJson (String.ofList (Text.trim line)) <;> rfl
  · show _ = (ofLines (n + 1) lines).map id
    cases ofLines (n + 1) lines <;> rfl

/-! ## More lines -/

theorem ofLines_append (n : Nat) (before after : List (List Char)) :
    ofLines n (before ++ after) = match ofLines n before with
      | .ok es => (ofLines (n + before.length) after).map (es ++ ·)
      | .error err => .error err := by
  induction before generalizing n with
  | nil =>
    show ofLines n after = (ofLines n after).map id
    cases ofLines n after <;> rfl
  | cons line before ih =>
    have hnumber : n + (line :: before).length = n + 1 + before.length := by
      rw [List.length_cons, Nat.add_assoc, Nat.add_comm 1]
    rw [List.cons_append, ofLines_cons, ofLines_cons, ih, hnumber]
    cases onLine line with
    | error cause => rfl
    | ok e =>
      cases ofLines (n + 1) before with
      | error err => rfl
      | ok es => cases ofLines (n + 1 + before.length) after <;> simp [Except.map]

/-- Lines that come `n` lines later are read alike, and have higher numbers. -/
theorem ofLines_add (n k : Nat) (lines : List (List Char)) :
    ofLines (n + k) lines =
      (ofLines k lines).mapError fun err => ⟨n + err.line, err.cause⟩ := by
  induction lines generalizing k with
  | nil => rfl
  | cons line lines ih =>
    rw [ofLines_cons, ofLines_cons, Nat.add_assoc, ih]
    cases onLine line with
    | error cause => rfl
    | ok e => cases ofLines (k + 1) lines <;> rfl

/-- Blanks around lines do not count. -/
theorem ofLines_map {f : List Char → List Char} (hf : ∀ line, Text.trim (f line) = Text.trim line)
    (n : Nat) (lines : List (List Char)) : ofLines n (lines.map f) = ofLines n lines := by
  induction lines generalizing n with
  | nil => rfl
  | cons line lines ih =>
    have honLine : onLine (f line) = onLine line := by rw [onLine, onLine, hf]
    rw [List.map_cons, ofLines_cons, ofLines_cons, honLine, ih]

theorem ofRecording_eq_ofLines_lines (text : String) :
    ofRecording text = ofLines 1 (Text.lines text.toList) := by
  have hne := Text.splitOn_ne_nil '\n' text.toList
  obtain ⟨parts, part, hparts⟩ := List.eq_nil_or_concat _ |>.resolve_left hne
  have hlast (n : Nat) : ofLines n ([part].filter (· ≠ [])) = ofLines n [part] := by
    cases part <;> rfl
  rw [ofRecording, Text.lines, hparts, List.concat_eq_append, List.dropLast_concat,
    List.getLast?_concat, ofLines_append, ofLines_append, ofLines_map Text.trim_dropReturn,
    List.length_map]
  simp only [Option.toList_some, hlast]

/-! ## The first fault -/

theorem exists_ofLines (h : ∀ l ∈ lines, Faultless l) (n : Nat) :
    ∃ es, ofLines n lines = .ok es := by
  induction lines generalizing n with
  | nil => exact ⟨[], rfl⟩
  | cons line lines ih =>
    rw [List.forall_mem_cons] at h
    obtain ⟨e, he⟩ := faultless_iff.mp h.1
    obtain ⟨es, hes⟩ := ih h.2 (n + 1)
    exact ⟨e.toList ++ es, by rw [ofLines_cons, he, hes]; rfl⟩

theorem ofLines_of_faulty (hbefore : ∀ l ∈ before, Faultless l) (hline : Faulty line cause)
    (n : Nat) (after : List (List Char)) :
    ofLines n (before ++ line :: after) = .error ⟨n + before.length, cause⟩ := by
  obtain ⟨es, hes⟩ := exists_ofLines hbefore n
  rw [ofLines_append, hes, ofLines_cons, onLine_eq_error_iff.mpr hline]
  rfl

/-- Lines are not at fault, or one of them is the first that is. -/
theorem faultless_or_first (lines : List (List Char)) : (∀ l ∈ lines, Faultless l) ∨
    ∃ before line cause after, lines = before ++ line :: after ∧
      (∀ l ∈ before, Faultless l) ∧ Faulty line cause := by
  induction lines with
  | nil => exact .inl (by simp)
  | cons line lines ih =>
    by_cases hline : Faultless line
    · rcases ih with hlines | ⟨before, l, cause, after, rfl, hbefore, hl⟩
      · exact .inl (List.forall_mem_cons.mpr ⟨hline, hlines⟩)
      · exact .inr ⟨line :: before, l, cause, after, rfl,
          List.forall_mem_cons.mpr ⟨hline, hbefore⟩, hl⟩
    · simp only [Faultless, not_forall, not_not] at hline
      obtain ⟨cause, hline⟩ := hline
      exact .inr ⟨[], line, cause, lines, rfl, by simp, hline⟩

/-- The fault that is reported is the first, and has the number of its line. -/
theorem ofLines_eq_error_iff {n : Nat} {err : LineError} : ofLines n lines = .error err ↔
    ∃ before line after, lines = before ++ line :: after ∧ (∀ l ∈ before, Faultless l) ∧
      Faulty line err.cause ∧ err.line = n + before.length := by
  constructor
  · intro h
    rcases faultless_or_first lines with hlines | ⟨before, line, cause, after, rfl, hbefore, hline⟩
    · obtain ⟨es, hes⟩ := exists_ofLines hlines n
      rw [hes] at h
      cases h
    · rw [ofLines_of_faulty hbefore hline] at h
      cases h
      exact ⟨before, line, after, rfl, hbefore, hline, rfl⟩
  · rintro ⟨before, line, after, rfl, hbefore, hline, hnumber⟩
    rw [ofLines_of_faulty hbefore hline, ← hnumber]

theorem exists_error_iff {n : Nat} :
    (∃ err, ofLines n lines = .error err) ↔ ∃ line ∈ lines, ∃ cause, Faulty line cause := by
  constructor
  · rintro ⟨err, herr⟩
    obtain ⟨before, line, after, rfl, -, hline, -⟩ := ofLines_eq_error_iff.mp herr
    exact ⟨line, by simp, err.cause, hline⟩
  · rintro ⟨line, hmem, cause, hline⟩
    rcases faultless_or_first lines with hlines | ⟨before, l, cause, after, rfl, hbefore, hl⟩
    · exact absurd hline (hlines line hmem cause)
    · exact ⟨_, ofLines_of_faulty hbefore hl n after⟩

/-! ## Recordings -/

/-- **Recordings are read line by line.** Two texts with a newline between them are read one after
the other, with the lines of the first one counted. A text is refused exactly if one of its lines is
at fault, and the first such line is reported with its number from 1. -/
theorem ofRecording_by_line :
    (∀ a b : String, ofRecording (a ++ "\n" ++ b) = match ofRecording a, ofRecording b with
      | .error err, _ => .error err
      | .ok _, .error err => .error ⟨a.toList.count '\n' + 1 + err.line, err.cause⟩
      | .ok es, .ok fs => .ok (es ++ fs)) ∧
    ∀ text : String, let lines := Text.lines text.toList
      ((∃ err, ofRecording text = .error err) ↔ ∃ line ∈ lines, ∃ cause, Faulty line cause) ∧
      ∀ err, ofRecording text = .error err ↔ ∃ before line after, lines = before ++ line :: after ∧
        (∀ l ∈ before, Faultless l) ∧ Faulty line err.cause ∧ err.line = before.length + 1 := by
  refine ⟨fun a b => ?_, fun text => ?_⟩
  · have hjoined : (a ++ "\n" ++ b).toList = a.toList ++ '\n' :: b.toList := by simp
    have hnumber : 1 + (Text.splitOn '\n' a.toList).length = a.toList.count '\n' + 1 + 1 := by
      rw [Text.length_splitOn, Nat.add_comm]
    unfold ofRecording
    rw [hjoined, Text.splitOn_append_sep, ofLines_append, hnumber, ofLines_add]
    cases ofLines 1 (Text.splitOn '\n' a.toList) with
    | error err => rfl
    | ok es => cases ofLines 1 (Text.splitOn '\n' b.toList) <;> rfl
  · intro lines
    rw [ofRecording_eq_ofLines_lines]
    refine ⟨exists_error_iff, fun err => ?_⟩
    rw [ofLines_eq_error_iff]
    simp only [Nat.add_comm 1]
    rfl

end Event
end FileWarden
