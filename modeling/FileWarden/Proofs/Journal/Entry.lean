import FileWarden.Proofs.Journal
import FileWarden.Proofs.Json.Written
import FileWarden.Proofs.Text.Blank
import FileWarden.Proofs.Text.Utf8

/-!
# Reading back a journal

- **Notices** (`noticeOf_toValues`): the members of a notice, read without a type, give the notice.
  Its kind is found among them by its name.
- **Entries** (`ofJson_written`): a written entry is read back, whatever its texts hold, also with
  blanks behind it. It stands on one line (`newline_not_mem_toJson`).
- **Journals** (`emitted_notices_read_back`): notices that are kept one after the other add one line
  each to the journal, and each line is read as its notice with the time of the journal.
-/

namespace FileWarden

/-! ## Notices -/

namespace Notice

open Json

/-- The kind of a notice. -/
def kind : Notice → Kind
  | .violation .. => .violation
  | .blocked .. => .blocked

/-- The fields of a notice in order, as values. -/
def toValues : Notice → List (String × Value)
  | .violation pid comm path count threshold => [
    ("pid", .number (.whole pid.toNat)),
    ("comm", .string comm),
    ("path", .string path),
    ("count", .number (.whole count.toNat)),
    ("threshold", .number (.whole threshold.toNat))]
  | .blocked pid comm count => [
    ("pid", .number (.whole pid.toNat)),
    ("comm", .string comm),
    ("count", .number (.whole count.toNat))]

theorem ofFoundOrIndex_name (k : Kind) : Kind.ofFoundOrIndex (.string k.name) = .ok k := by
  cases k <;> decide

theorem toNotice_toValues (n : Notice) : (Body.members n.toValues).toNotice n.kind = .ok n := by
  cases n <;>
    simp [Body.toNotice, toValues, kind, Draft.take, Draft.once, Draft.empty, Draft.toNotice,
      Value.found, Found.text, u32_whole, required, bind, Except.bind, Except.map, pure,
      Except.pure]

theorem ne_kind_of_mem_toValues {n : Notice} {m : String × Value} (h : m ∈ n.toValues) :
    m.1 ≠ "kind" := by
  cases n <;> simp [toValues] at h <;> grind

end Notice

namespace JournalEntry

open Json

theorem foldlM_takeKind {ms : List (String × Value)} (h : ∀ m ∈ ms, m.1 ≠ "kind")
    (s : Option Notice.Kind × List (String × Value)) :
    ms.foldlM takeKind s = .ok (s.1, s.2 ++ ms) := by
  induction ms generalizing s with
  | nil => simp [pure, Except.pure]
  | cons m ms ih =>
    have hstep : takeKind s m = .ok (s.1, s.2 ++ [m]) := if_neg (h m List.mem_cons_self)
    rw [List.foldlM_cons, hstep]
    exact (ih (fun m hm => h m (List.mem_cons_of_mem _ hm)) _).trans (by simp)

/-- The kind is told by its name, and the fields by their names among the other members. -/
theorem noticeOf_toValues (n : Notice) :
    noticeOf (("kind", .string n.kind.name) :: n.toValues) = .ok n := by
  have hkind : takeKind (none, []) ("kind", .string n.kind.name) = .ok (some n.kind, []) := by
    simp only [takeKind, Notice.Draft.once, Value.found, Notice.ofFoundOrIndex_name, if_pos]
    rfl
  have hfields := foldlM_takeKind (fun m => n.ne_kind_of_mem_toValues) (some n.kind, [])
  simp only [noticeOf, List.foldlM_cons, hkind, bind, Except.bind, hfields, List.nil_append,
    required, Notice.toNotice_toValues]

/-! ## Entries -/

/-- Members that are written so, and read as these values. -/
abbrev WrittenMembers : List (String × List Char) → List (String × Value) → Prop :=
  List.Forall₂ fun m v => m.1 = v.1 ∧ ReadsAs m.2 v.2

theorem writtenMembers_toMembers (n : Notice) :
    WrittenMembers n.toMembers (("kind", .string n.kind.name) :: n.toValues) := by
  cases n <;>
    simp [WrittenMembers, Notice.toMembers, Notice.toValues, Notice.kind, readsAs_writeString,
      readsAs_writeNat]

/-- A reader of entries takes members other than the time as they come. -/
theorem taken_values {ms : List (String × List Char)} {vs : List (String × Value)}
    (h : WrittenMembers ms vs) (hts : ∀ v ∈ vs, v.1 ≠ "ts") (ts : Option String)
    (before : List (String × Value)) :
    Taken member (ts, before) ms (ts, vs.reverse ++ before) := by
  induction h generalizing before with
  | nil => exact .nil _
  | @cons m v ms vs hm hms ih =>
    obtain ⟨key, text⟩ := m
    obtain ⟨rfl, htext⟩ := hm
    rw [List.reverse_cons, List.append_assoc, List.singleton_append]
    refine .cons (t := (ts, v :: before)) (fun rest hrest => ?_)
      (ih (fun v hv => hts v (List.mem_cons_of_mem _ hv)) _)
    have hcolon : colon (':' :: text ++ rest) = .ok (text ++ rest) := rfl
    simp only [member, if_neg (hts v List.mem_cons_self), hcolon, bind, Except.bind,
      htext _ _ hrest]
    rfl

theorem ne_ts_of_mem_values {n : Notice} {v : String × Value}
    (h : v ∈ ("kind", Value.string n.kind.name) :: n.toValues) : v.1 ≠ "ts" := by
  cases n <;> simp [Notice.toValues] at h <;> grind

/-- A reader of entries takes all members of a written entry. -/
theorem taken_toJson (e : JournalEntry) :
    Taken member (none, []) (("ts", writeString e.ts) :: e.notice.toMembers)
      (some e.ts, (("kind", .string e.notice.kind.name) :: e.notice.toValues).reverse) := by
  refine .cons (t := (some e.ts, [])) (fun rest _ => ?_) ?_
  · have hfield : field "ts" none Found.text (':' :: writeString e.ts ++ rest) =
        .ok (e.ts, rest) := field_of_scalar "ts" (scalar_text e.ts rest)
    simp only [member, if_pos, hfield, bind, Except.bind]
    rfl
  · have := taken_values (writtenMembers_toMembers e.notice) (fun v => ne_ts_of_mem_values)
      (some e.ts) []
    rwa [List.append_nil] at this

theorem reader_toJson (e : JournalEntry) (rest : List Char) :
    reader (e.toJson.toList ++ rest) = .ok (e, rest) := by
  have hread := members_written e.taken_toJson rest
  have hblank : Json.isBlank '\x7b' = false := rfl
  have hof : ofMembers (some e.ts)
      (("kind", .string e.notice.kind.name) :: e.notice.toValues) = .ok e := by
    simp only [ofMembers, required, noticeOf_toValues, bind, Except.bind]
    rfl
  simp only [toJson, String.toList_ofList, writeObject, reader, skipBlanks, List.cons_append,
    List.append_assoc, List.nil_append, List.dropWhile_cons, hblank, Bool.false_eq_true, if_false,
    bind, Except.bind, hread, List.reverse_reverse, hof]
  rfl

/-- A written entry is read back, also with blanks behind it. -/
theorem ofJson_written (e : JournalEntry) (blanks : List Char)
    (h : ∀ c ∈ blanks, Json.isBlank c = true) :
    ofJson (String.ofList (e.toJson.toList ++ blanks)) = .ok e := by
  have hblanks : skipBlanks blanks = [] := List.dropWhile_eq_nil_iff.mpr h
  simp only [ofJson, parse, String.toList_ofList, reader_toJson, Except.map, hblanks]

theorem newline_not_mem_toJson (e : JournalEntry) : '\n' ∉ e.toJson.toList := by
  rw [toJson, String.toList_ofList]
  apply newline_not_mem_writeObject
  cases e.notice <;>
    simp [Notice.toMembers, newline_not_mem_writeString, newline_not_mem_writeNat]

end JournalEntry

/-! ## Journals -/

namespace Journal

/-- What the lines of some notices add to the journal, as a text. -/
def addedText (j : Journal) (ns : List Notice) : List Char :=
  ns.flatMap fun n => (j.entry n).toJson.toList ++ ['\n']

theorem flatMap_bytes (j : Journal) (ns : List Notice) :
    ns.flatMap j.bytes = Utf8.encode (j.addedText ns) := by
  induction ns with
  | nil => rfl
  | cons n ns ih =>
    have hline : (j.entry n).line.toList = (j.entry n).toJson.toList ++ ['\n'] := by
      rw [JournalEntry.line, String.toList_append]
      rfl
    rw [List.flatMap_cons, ih, addedText, addedText, List.flatMap_cons, Utf8.encode_append, bytes,
      hline]

/-- A journal that is cut at its newlines falls into the lines of its notices. -/
theorem splitOn_addedText (j : Journal) (ns : List Notice) :
    Text.splitOn '\n' (j.addedText ns) = (ns.map fun n => (j.entry n).toJson.toList) ++ [[]] := by
  have hlines : ∀ line ∈ ns.map fun n => (j.entry n).toJson.toList, '\n' ∉ line := by
    intro line hline
    obtain ⟨n, -, rfl⟩ := List.mem_map.mp hline
    exact (j.entry n).newline_not_mem_toJson
  rw [← Text.splitOn_lines hlines, List.flatMap_map]
  rfl

/-- What some notices add to a journal: the text of each entry, and a newline behind it. -/
theorem flatMap_bytes_eq_lines (j : Journal) (ns : List Notice) :
    ns.flatMap j.bytes = (ns.map fun n => (j.entry n).toJson).flatMap
      fun line => Utf8.encode line.toList ++ [10] := by
  rw [List.flatMap_map]
  refine List.flatMap_congr fun n _ => ?_
  rw [bytes, JournalEntry.line, String.toList_append, Utf8.encode_append]
  rfl

/-- A line has no newline inside, neither as a character nor as a byte. -/
theorem newline_not_mem_line {j : Journal} {ns : List Notice} {line : String}
    (h : line ∈ ns.map fun n => (j.entry n).toJson) :
    '\n' ∉ line.toList ∧ 10 ∉ Utf8.encode line.toList := by
  obtain ⟨n, -, rfl⟩ := List.mem_map.mp h
  have hnewline := (j.entry n).newline_not_mem_toJson
  exact ⟨hnewline, Utf8.newline_not_mem_encode hnewline⟩

/-- Each line is read as its notice. -/
theorem lines_read_back (j : Journal) (ns : List Notice) :
    (ns.map fun n => (j.entry n).toJson).map JournalEntry.ofJson =
      ns.map fun n => .ok ⟨j.time.timestamp, n⟩ := by
  rw [List.map_map]
  refine List.map_congr_left fun n _ => ?_
  have hread := (j.entry n).ofJson_written [] (by simp)
  rwa [List.append_nil, String.ofList_toList] at hread

/-- One notice after the other is kept without a warning. -/
theorem keep_keepAll {m : MemoryFiles} (h : m.readOnly = false) (j : Journal) (ns : List Notice)
    (n : Notice) : j.keep (keepAll (some j) m ns) n = ([], keepAll (some j) m (ns ++ [n])) := by
  have hmode : (keepAll (some j) m ns).readOnly = false := (readOnly_keepAll _ m ns).trans h
  rw [keepAll_append, keep_of_writable hmode]
  show _ = ([], (j.keep (keepAll (some j) m ns) n).2)
  rw [keep_of_writable hmode]

/-- **A journal is read back.** On writable files, each notice adds one line to the journal, behind
what it held before: the text of its entry and a newline. No line has a newline inside, and each is
read as its notice with the time of the journal. No other file is changed. -/
theorem emitted_notices_read_back (j : Journal) {m : MemoryFiles} (hwritable : m.readOnly = false)
    (ns : List Notice) :
    let after := keepAll (some j) m ns
    let lines := ns.map fun n => (j.entry n).toJson
    (∀ k n, ns[k]? = some n → j.keep (keepAll (some j) m (ns.take k)) n =
      ([], keepAll (some j) m (ns.take (k + 1)))) ∧
    (∃ added, (after.get? j.path).getD [] = (m.get? j.path).getD [] ++ added ∧
      added = lines.flatMap (fun line => Utf8.encode line.toList ++ [10]) ∧
      ∃ text, Utf8.decode added = .ok text ∧
        Text.splitOn '\n' text = lines.map String.toList ++ [[]]) ∧
    (∀ line ∈ lines, '\n' ∉ line.toList ∧ 10 ∉ Utf8.encode line.toList) ∧
    lines.map JournalEntry.ofJson = ns.map (fun n => .ok ⟨j.time.timestamp, n⟩) ∧
    lines.map (fun line => JournalEntry.ofJson (line ++ "\n")) =
      ns.map (fun n => .ok ⟨j.time.timestamp, n⟩) ∧
    ∀ p, Component.ofPath p ≠ Component.ofPath j.path → after.get? p = m.get? p := by
  intro after lines
  have hkept : Kept j ns m after := kept_keepAll hwritable ns
  refine ⟨fun k n hn => ?_, ⟨_, hkept.content, j.flatMap_bytes_eq_lines ns, j.addedText ns, ?_, ?_⟩,
    fun _ => newline_not_mem_line, j.lines_read_back ns, ?_, hkept.others⟩
  · obtain ⟨hk, rfl⟩ := List.getElem?_eq_some_iff.mp hn
    rw [keep_keepAll hwritable, List.take_append_getElem hk]
  · rw [flatMap_bytes, Utf8.decode_encode]
  · rw [splitOn_addedText, List.map_map]
    rfl
  · rw [List.map_map]
    refine List.map_congr_left fun n _ => ?_
    have hread := (j.entry n).ofJson_written ['\n'] (by simp [Json.isBlank])
    rwa [String.ofList_append, String.ofList_toList] at hread

/-- A path that would forge a line of its own, behind a journal that breaks off within a line. The
clock stands in the year before the year 0. -/
theorem forged_line_reads_back :
    let path := "/tmp/\"\x7d\r\n\x7b\"ts\":\"\x00\u00e9"
    let forged : Notice := .violation 7 "a\\\"b" path 4294967295 1
    let blocked : Notice := .blocked 0 "\n" 1
    let old := Utf8.encode "\x7b\"ts\"".toList
    let m : MemoryFiles := MemoryFiles.put ⟨[], false⟩ "/j" old
    let j : Journal := ⟨"/j", ⟨-62198755200, 0⟩⟩
    let lines := [(j.entry forged).toJson, (j.entry blocked).toJson]
    m.readOnly = false ∧
    ((keepAll (some j) m [forged, blocked]).get? "/j").getD [] =
      old ++ lines.flatMap (fun line => Utf8.encode line.toList ++ [10]) ∧
    (j.entry forged).toJson = "\x7b\"ts\":\"-0001-01-01T00:00:00Z\",\"kind\":\"violation\"," ++
      "\"pid\":7,\"comm\":\"a\\\\\\\"b\"," ++
      "\"path\":\"/tmp/\\\"\x7d\\r\\n\x7b\\\"ts\\\":\\\"\\u0000\u00e9\"," ++
      "\"count\":4294967295,\"threshold\":1\x7d" ∧
    (∀ line ∈ lines, '\n' ∉ line.toList) ∧
    lines.map JournalEntry.ofJson =
      [.ok ⟨"-0001-01-01T00:00:00Z", forged⟩, .ok ⟨"-0001-01-01T00:00:00Z", blocked⟩] := by
  intro path forged blocked old m j lines
  obtain ⟨-, ⟨added, hcontent, hadded, -⟩, hnewline, hread, -⟩ :=
    emitted_notices_read_back j (m := m) rfl [forged, blocked]
  have hold : m.get? "/j" = some old := (MemoryFiles.get?_put ..).trans (if_pos rfl)
  have htime : j.time.timestamp = "-0001-01-01T00:00:00Z" := by decide +kernel
  refine ⟨rfl, ?_, by decide +kernel, fun line hline => (hnewline line hline).1, ?_⟩
  · rw [hcontent, hadded, hold]
    rfl
  · rw [htime] at hread
    exact hread

end Journal
end FileWarden
