import FileWarden.Event.Lines
import FileWarden.Proofs.Json.Written
import FileWarden.Proofs.Text.Trimmed

/-!
# Reading back recordings

- **Events** (`ofJson_toJson`): the JSON text of an event is read back as the event, whatever its
  texts hold. It stands on one line (`newline_not_mem_toJson`).
- **Lines** (`RecordedLine`): a line of a recording holds an event, with blanks around it, or is a
  filler, which is blank or a comment.
- **Recordings** (`ofRecording_written`): a recording is read as its events in order, cut to their
  bounds, and fillers, blanks and carriage returns make no difference.
-/

namespace FileWarden
namespace Event

open Json

/-! ## Events -/

theorem field_written {α : Type} {name : String} {type : Found → Except Reason α} {a : α}
    {text rest : List Char} (h : scalar type (text ++ rest) = .ok (a, rest)) (f : α → Draft) :
    (field name none type (':' :: text ++ rest)).map (fun found => (f found.1, found.2)) =
      .ok (f a, rest) := by
  rw [List.cons_append, field_of_scalar name h, Except.map]

/-- A reader of event fields takes all members of a written event. -/
theorem taken_toJson (e : Event) : Taken Draft.member .empty [
    ("pid", writeNat e.pid.toNat),
    ("uid", writeNat e.uid.toNat),
    ("comm", writeString e.comm),
    ("path", writeString e.path),
    ("flags", writeInt e.flags.toInt)] ⟨e.pid, e.uid, e.comm, e.path, e.flags⟩ := by
  refine .cons (t := ⟨e.pid, none, none, none, none⟩) (fun rest h => ?_) ?_
  · simp only [Draft.member]
    exact field_written (scalar_u32 e.pid h) fun v => ⟨some v, none, none, none, none⟩
  refine .cons (t := ⟨e.pid, e.uid, none, none, none⟩) (fun rest h => ?_) ?_
  · simp only [Draft.member]
    exact field_written (scalar_u32 e.uid h) fun v => ⟨some e.pid, some v, none, none, none⟩
  refine .cons (t := ⟨e.pid, e.uid, e.comm, none, none⟩) (fun rest h => ?_) ?_
  · simp only [Draft.member]
    exact field_written (scalar_text e.comm rest)
      fun v => ⟨some e.pid, some e.uid, some v, none, none⟩
  refine .cons (t := ⟨e.pid, e.uid, e.comm, e.path, none⟩) (fun rest h => ?_) ?_
  · simp only [Draft.member]
    exact field_written (scalar_text e.path rest)
      fun v => ⟨some e.pid, some e.uid, some e.comm, some v, none⟩
  refine .cons (fun rest h => ?_) (.nil _)
  simp only [Draft.member]
  exact field_written (scalar_i32 e.flags h)
    fun v => ⟨some e.pid, some e.uid, some e.comm, some e.path, some v⟩

theorem ofJson_toJson (e : Event) : ofJson e.toJson = .ok e := by
  have hread := members_written (taken_toJson e) []
  have hblank : Json.isBlank '\x7b' = false := rfl
  have hreader : reader e.toJson.toList = .ok (e, []) := by
    simp only [toJson, String.toList_ofList, writeObject, reader, skipBlanks, List.cons_append,
      List.dropWhile_cons, hblank, Bool.false_eq_true, if_false, bind, Except.bind, hread]
    rfl
  simp only [ofJson, parse, hreader, Except.map]
  rfl

theorem newline_not_mem_toJson (e : Event) : '\n' ∉ e.toJson.toList := by
  rw [toJson, String.toList_ofList]
  apply newline_not_mem_writeObject
  simp [newline_not_mem_writeNat, newline_not_mem_writeInt, newline_not_mem_writeString]

/-- The JSON text of an event stands between braces. -/
theorem exists_toJson (e : Event) : ∃ cs, e.toJson.toList = '\x7b' :: cs ++ ['\x7d'] := by
  rw [toJson, String.toList_ofList]
  exact ⟨_, rfl⟩

/-! ## Bounds -/

/-- An event as it can be captured: its texts hold no NUL and fit into their fields. -/
structure InBounds (e : Event) : Prop where
  comm_noNul : '\x00' ∉ e.comm.toList
  comm_size : Utf8.size e.comm.toList ≤ commBytes
  path_noNul : '\x00' ∉ e.path.toList
  path_size : Utf8.size e.path.toList ≤ pathBytes

instance (e : Event) : Decidable e.InBounds :=
  decidable_of_iff ('\x00' ∉ e.comm.toList ∧ Utf8.size e.comm.toList ≤ commBytes ∧
      '\x00' ∉ e.path.toList ∧ Utf8.size e.path.toList ≤ pathBytes)
    ⟨fun ⟨a, b, c, d⟩ => ⟨a, b, c, d⟩, fun ⟨a, b, c, d⟩ => ⟨a, b, c, d⟩⟩

theorem bounded_of_fits {max : Nat} {s : String} (hnul : '\x00' ∉ s.toList)
    (hsize : Utf8.size s.toList ≤ max) : bounded max s = s := by
  have htake : s.toList.takeWhile (· ≠ '\x00') = s.toList := Text.takeWhile_ne_of_not_mem hnul
  rw [bounded, htake, Utf8.keep_of_size_le hsize, String.ofList_toList]

theorem InBounds.cut_eq {e : Event} (h : e.InBounds) : e.cut = e := by
  rw [cut, make, bounded_of_fits h.comm_noNul h.comm_size, bounded_of_fits h.path_noNul h.path_size]

/-- A recording of events: one JSON text a line. -/
def recordingText (es : List Event) : String := String.join (es.map fun e => e.toJson ++ "\n")

end Event

/-! ## Lines -/

/-- A line of a recording. -/
inductive RecordedLine where
  /-- An event with blanks around it. -/
  | event (before : List Char) (e : Event) (after : List Char)
  /-- A line without an event. -/
  | filler (text : List Char)

namespace RecordedLine

/-- What stands on a line. -/
def text : RecordedLine → List Char
  | event before e after => before ++ e.toJson.toList ++ after
  | filler text => text

/-- The event on a line. -/
def event? : RecordedLine → Option Event
  | event _ e _ => some e
  | filler _ => none

/-- Blanks are blanks, and a filler is blank or a comment; a line does not go over its end. -/
def Sound : RecordedLine → Prop
  | event before _ after =>
    (∀ c ∈ before ++ after, Text.isBlank c = true) ∧ '\n' ∉ before ++ after
  | filler text =>
    ((∀ c ∈ text, Text.isBlank c = true) ∨ (text.dropWhile Text.isBlank).head? = some '#') ∧
      '\n' ∉ text

-- The instances for lists are named: with one for all characters in scope, a decision would go
-- through them all.
instance : DecidablePred Sound
  | event before _ after =>
    have := List.decidableBAll (Text.isBlank · = true) (before ++ after)
    inferInstanceAs (Decidable (_ ∧ '\n' ∉ before ++ after))
  | filler text =>
    have := List.decidableBAll (Text.isBlank · = true) text
    inferInstanceAs (Decidable ((_ ∨ (text.dropWhile Text.isBlank).head? = some '#') ∧ '\n' ∉ text))

/-- The text of lines. Each ends with a newline, and the marked ones with a carriage return before
it. -/
def textOf (lines : List (RecordedLine × Bool)) : List Char :=
  lines.flatMap fun (l, marked) => l.text ++ (if marked then ['\r'] else []) ++ ['\n']

/-- A line with a carriage return at its end. -/
def returned : RecordedLine → RecordedLine
  | event before e after => event before e (after ++ ['\r'])
  | filler text => filler (text ++ ['\r'])

/-- A line with the carriage return that a mark stands for. -/
def settled : RecordedLine × Bool → RecordedLine
  | (l, true) => l.returned
  | (l, false) => l

theorem text_settled (l : RecordedLine × Bool) :
    (settled l).text = l.1.text ++ if l.2 then ['\r'] else [] := by
  obtain ⟨l | l, _ | _⟩ := l <;> simp [settled, returned, text]

theorem event?_settled (l : RecordedLine × Bool) : (settled l).event? = l.1.event? := by
  obtain ⟨l | l, _ | _⟩ := l <;> rfl

theorem Sound.returned {l : RecordedLine} (h : l.Sound) : l.returned.Sound := by
  have hblank : Text.isBlank '\r' = true := rfl
  cases l with
  | event before e after =>
    obtain ⟨hblanks, hline⟩ := h
    refine ⟨fun c hc => ?_, by simpa [← List.append_assoc] using hline⟩
    rw [← List.append_assoc, List.mem_append, List.mem_singleton] at hc
    rcases hc with hc | rfl
    · exact hblanks c hc
    · exact hblank
  | filler text =>
    obtain ⟨hfiller, hline⟩ := h
    refine ⟨hfiller.imp (fun hblanks c hc => ?_) fun hcomment => ?_, by simpa using hline⟩
    · rw [List.mem_append, List.mem_singleton] at hc
      rcases hc with hc | rfl
      · exact hblanks c hc
      · exact hblank
    · rw [List.dropWhile_append]
      cases hrest : text.dropWhile Text.isBlank with
      | nil => simp [hrest] at hcomment
      | cons c cs => simpa [hrest] using hcomment

theorem Sound.settled {l : RecordedLine × Bool} (h : l.1.Sound) : (settled l).Sound := by
  obtain ⟨l, _ | _⟩ := l
  · exact h
  · exact h.returned

theorem Sound.newline_not_mem {l : RecordedLine} (h : l.Sound) : '\n' ∉ l.text := by
  cases l with
  | event before e after =>
    obtain ⟨-, h⟩ := h
    simp only [List.mem_append, not_or] at h
    simp [text, h.1, h.2, Event.newline_not_mem_toJson]
  | filler text => exact h.2

/-- A line with an event is read as this event. -/
theorem ofLines_event {before after : List Char} (h : ∀ c ∈ before ++ after, Text.isBlank c = true)
    (n : Nat) (e : Event) (rest : List (List Char)) :
    Event.ofLines n ((before ++ e.toJson.toList ++ after) :: rest) =
      (Event.ofLines (n + 1) rest).map (e.cut :: ·) := by
  obtain ⟨cs, hcs⟩ := e.exists_toJson
  have htrimmed : Text.Trimmed e.toJson.toList := hcs ▸ Text.trimmed_between rfl rfl cs
  have htrim := htrimmed.trim_padded (List.forall_mem_append.mp h).1 (List.forall_mem_append.mp h).2
  have hentry : Policy.isEntry e.toJson.toList = true := by simp [hcs, Policy.isEntry]
  rw [Event.ofLines, htrim, if_pos hentry, String.ofList_toList, Event.ofJson_toJson]

/-- A filler is passed over. -/
theorem ofLines_filler {text : List Char}
    (h : (∀ c ∈ text, Text.isBlank c = true) ∨ (text.dropWhile Text.isBlank).head? = some '#')
    (n : Nat) (rest : List (List Char)) :
    Event.ofLines n (text :: rest) = Event.ofLines (n + 1) rest := by
  have hentry : Policy.isEntry (Text.trim text) = false := by
    rcases h with h | h
    · rw [Text.trim_blanks h]
      rfl
    · simp [Policy.isEntry, Text.head?_trim h]
  rw [Event.ofLines, hentry]
  rfl

theorem ofLines_sound {l : RecordedLine} (h : l.Sound) (n : Nat) (rest : List (List Char)) :
    Event.ofLines n (l.text :: rest) =
      (Event.ofLines (n + 1) rest).map (l.event?.toList.map Event.cut ++ ·) := by
  cases l with
  | event before e after => exact ofLines_event h.1 n e rest
  | filler line =>
    rw [text, ofLines_filler h.1]
    cases Event.ofLines (n + 1) rest <;> rfl

/-- The lines of a recording are read as their events, cut to the bounds. The empty line stands
behind the last newline. -/
theorem ofLines_lines {lines : List RecordedLine} (h : ∀ l ∈ lines, l.Sound) (n : Nat) :
    Event.ofLines n (lines.map text ++ [[]]) = .ok ((lines.filterMap event?).map Event.cut) := by
  induction lines generalizing n with
  | nil => rfl
  | cons l lines ih =>
    rw [List.map_cons, List.cons_append, ofLines_sound (h l List.mem_cons_self),
      ih fun l hl => h l (List.mem_cons_of_mem _ hl), Except.map, List.filterMap_cons]
    cases l.event? <;> rfl

theorem textOf_eq (lines : List (RecordedLine × Bool)) :
    textOf lines = ((lines.map settled).map text).flatMap (· ++ ['\n']) := by
  simp only [textOf, List.flatMap_map, text_settled]

/-- A recording is read as the events on its lines, cut to their bounds. -/
theorem ofRecording_textOf {lines : List (RecordedLine × Bool)} (h : ∀ l ∈ lines, l.1.Sound) :
    Event.ofRecording (String.ofList (textOf lines)) =
      .ok ((lines.filterMap (·.1.event?)).map Event.cut) := by
  have hsound : ∀ l ∈ lines.map settled, l.Sound := by
    intro l hl
    obtain ⟨l, hmem, rfl⟩ := List.mem_map.mp hl
    exact (h l hmem).settled
  have hevents : (lines.map settled).filterMap event? = lines.filterMap (·.1.event?) := by
    rw [List.filterMap_map]
    exact congrArg (List.filterMap · lines) (funext event?_settled)
  rw [Event.ofRecording, String.toList_ofList, textOf_eq, Text.splitOn_lines, ofLines_lines hsound,
    hevents]
  intro line hline
  obtain ⟨l, hl, rfl⟩ := List.mem_map.mp hline
  exact (hsound l hl).newline_not_mem

end RecordedLine

namespace Event

/-- A recording of events alone has their texts on its lines. -/
theorem recordingText_eq (es : List Event) : recordingText es =
    String.ofList (RecordedLine.textOf (es.map fun e => (.event [] e [], false))) := by
  apply String.toList_inj.mp
  rw [recordingText, String.toList_join, String.toList_ofList]
  simp [RecordedLine.textOf, RecordedLine.text, List.flatMap_map]

theorem ofRecording_recordingText (es : List Event) :
    ofRecording (recordingText es) = .ok (es.map cut) := by
  have hsound : ∀ l ∈ es.map fun e => (RecordedLine.event [] e [], false), l.1.Sound := by
    intro l hl
    obtain ⟨e, -, rfl⟩ := List.mem_map.mp hl
    exact ⟨by simp, by simp⟩
  have hevents : (es.map fun e => (RecordedLine.event [] e [], false)).filterMap (·.1.event?) =
      es := by
    rw [List.filterMap_map]
    exact List.filterMap_some
  rw [recordingText_eq, RecordedLine.ofRecording_textOf hsound, hevents]

theorem map_cut_of_inBounds {es : List Event} (h : ∀ e ∈ es, e.InBounds) : es.map cut = es :=
  (List.map_congr_left fun e he => (h e he).cut_eq).trans (List.map_id es)

/-- **Recordings are read back.** The JSON texts of any events, each with a newline behind it, are
read as these events in order, with their texts cut to the bounds; events within the bounds come
back as they are. Blank lines and comments anywhere between the lines, blanks around a line, and
carriage returns before newlines make no difference. -/
theorem ofRecording_written (es : List Event) :
    ofRecording (recordingText es) = .ok (es.map cut) ∧
    ((∀ e ∈ es, e.InBounds) → ofRecording (recordingText es) = .ok es) ∧
    ∀ lines : List (RecordedLine × Bool), (∀ l ∈ lines, l.1.Sound) →
      lines.filterMap (·.1.event?) = es →
      ofRecording (String.ofList (RecordedLine.textOf lines)) = ofRecording (recordingText es) := by
  have hread := ofRecording_recordingText es
  refine ⟨hread, fun h => ?_, fun lines hsound hevents => ?_⟩
  · rw [hread, map_cut_of_inBounds h]
  · rw [hread, RecordedLine.ofRecording_textOf hsound, hevents]

/-- A recording with a comment, a blank line, blanks around an event and carriage returns. The first
event has texts that must be escaped, and a path that is cut at a NUL. -/
theorem ofRecording_with_fillers :
    let escaped : Event := ⟨7, 0, "a\"b\\\n", "/tmp/x\x00y", -1⟩
    let plain : Event := ⟨4294967295, 1000, "cat", "/caf\u00e9", 577⟩
    let lines : List (RecordedLine × Bool) := [
      (.filler "  # two events".toList, true),
      (.event [' ', '\t'] escaped ['\u00a0'], true),
      (.filler ['\t'], false),
      (.event [] plain [], true)]
    (∀ l ∈ lines, l.1.Sound) ∧ plain.InBounds ∧ ¬ escaped.InBounds ∧
    ofRecording (String.ofList (RecordedLine.textOf lines)) =
      .ok [⟨7, 0, "a\"b\\\n", "/tmp/x", -1⟩, plain] := by
  intro escaped plain lines
  have hsound : ∀ l ∈ lines, l.1.Sound := by decide +kernel
  obtain ⟨hread, -, hlines⟩ := ofRecording_written [escaped, plain]
  refine ⟨hsound, by decide +kernel, by decide +kernel, ?_⟩
  rw [hlines lines hsound rfl, hread]
  have hcut : [escaped, plain].map cut = [⟨7, 0, "a\"b\\\n", "/tmp/x", -1⟩, plain] := by
    decide +kernel
  rw [hcut]

end Event
end FileWarden
