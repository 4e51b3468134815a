import FileWarden.Files.Memory
import FileWarden.Journal
import FileWarden.Proofs.Loop

/-!
# What a journal leaves behind

A transcript is passed on to the log and to a journal (`deliver_eq`). On files in memory:

- **The log** (`shown`): it has the lines of the transcript in order. If the files may not be
  changed, a warning follows each notice; nothing else of the files shows in it.
- **The files** (`keepAll`): they follow from the notices of the transcript alone, and what becomes
  of a file is told by that file (`get?_keepAll_congr`).
- **The journal** (`kept_keepAll`): if the files may be changed, the lines of the notices are added
  to the journal in order, and no other file changes (`Kept`).
-/

namespace FileWarden

theorem Transcript.log_append (t u : Transcript) :
    Transcript.log (t ++ u) = Transcript.log t ++ Transcript.log u :=
  List.map_append

theorem Transcript.log_map_line (ls : List LogLine) : Transcript.log (ls.map .line) = ls := by
  simp [Transcript.log, Function.comp_def, Entry.logLine]

theorem MemoryFiles.get?_put (m : MemoryFiles) (path p : String) (bytes : List UInt8) :
    (m.put path bytes).get? p =
      if Component.ofPath p = Component.ofPath path then some bytes else m.get? p :=
  lookup_store ..

namespace Journal

variable {j : Journal} {m m' : MemoryFiles}

/-! ## One notice -/

/-- A notice that is added to the journal. -/
def add (j : Journal) (m : MemoryFiles) (n : Notice) : MemoryFiles :=
  m.put j.path ((m.get? j.path).getD [] ++ j.bytes n)

/-- The warning about a notice that may not be added. -/
def refusal (j : Journal) : LogLine :=
  j.warning ⟨.io .permissionDenied ("read-only filesystem: " ++ j.path)⟩

theorem keep_of_writable (h : m.readOnly = false) (n : Notice) : j.keep m n = ([], j.add m n) := by
  simp [keep, write, FileStore.append, MemoryFiles.append, add, h]

theorem keep_of_readOnly (h : m.readOnly = true) (n : Notice) : j.keep m n = ([j.refusal], m) := by
  simp [keep, write, FileStore.append, MemoryFiles.append, refusal, h]

theorem readOnly_keep (j : Journal) (m : MemoryFiles) (n : Notice) :
    (j.keep m n).2.readOnly = m.readOnly := by
  cases h : m.readOnly with
  | true => rw [keep_of_readOnly h, h]
  | false => rw [keep_of_writable h]; exact h

theorem get?_add_congr {p : String} (h : m.get? p = m'.get? p) (j : Journal) (n : Notice) :
    (j.add m n).get? p = (j.add m' n).get? p := by
  rw [add, add, MemoryFiles.get?_put, MemoryFiles.get?_put]
  by_cases hp : Component.ofPath p = Component.ofPath j.path
  · have hcontent (m : MemoryFiles) : m.get? j.path = m.get? p := by
      rw [MemoryFiles.get?, MemoryFiles.get?, hp]
    rw [hcontent, hcontent, h]
  · rw [if_neg hp, if_neg hp, h]

theorem get?_keep_congr (hmode : m.readOnly = m'.readOnly) {p : String}
    (h : m.get? p = m'.get? p) (j : Journal) (n : Notice) :
    (j.keep m n).2.get? p = (j.keep m' n).2.get? p := by
  cases hm : m.readOnly with
  | true => rw [keep_of_readOnly hm, keep_of_readOnly (hmode ▸ hm), h]
  | false => rw [keep_of_writable hm, keep_of_writable (hmode ▸ hm), get?_add_congr h]

/-! ## Transcripts -/

/-- What the log shows of an entry, with files that may be changed or not. -/
def shown (journal : Option Journal) (readOnly : Bool) (e : Entry) : List LogLine :=
  e.logLine :: match journal, e with
    | some j, .notice _ => if readOnly then [j.refusal] else []
    | _, _ => []

/-- Files after some notices were kept. -/
def keepAll (journal : Option Journal) (m : MemoryFiles) (ns : List Notice) : MemoryFiles :=
  match journal with
  | some j => ns.foldl (fun m n => (j.keep m n).2) m
  | none => m

theorem keepEntry_eq (journal : Option Journal) (m : MemoryFiles) (e : Entry) :
    e.logLine :: (keepEntry journal m e).1 = shown journal m.readOnly e ∧
      (keepEntry journal m e).2 = keepAll journal m e.notice?.toList := by
  cases journal with
  | none => exact ⟨rfl, rfl⟩
  | some j =>
    cases e with
    | line l => exact ⟨rfl, rfl⟩
    | notice n =>
      refine ⟨?_, rfl⟩
      cases h : m.readOnly with
      | true => simp [keepEntry, shown, keep_of_readOnly h]
      | false => simp [keepEntry, shown, keep_of_writable h]

theorem keepAll_append (journal : Option Journal) (m : MemoryFiles) (ns ms : List Notice) :
    keepAll journal m (ns ++ ms) = keepAll journal (keepAll journal m ns) ms := by
  cases journal with
  | none => rfl
  | some j => exact List.foldl_append

theorem readOnly_keepAll (journal : Option Journal) (m : MemoryFiles) (ns : List Notice) :
    (keepAll journal m ns).readOnly = m.readOnly := by
  cases journal with
  | none => rfl
  | some j =>
    induction ns generalizing m with
    | nil => rfl
    | cons n ns ih => exact (ih _).trans (j.readOnly_keep m n)

theorem deliver_eq (journal : Option Journal) (m : MemoryFiles) (t : Transcript) :
    deliver journal m t = (t.flatMap (shown journal m.readOnly), keepAll journal m t.notices) := by
  -- An entry is kept on the files as the entries before left them; these may be changed or not, as
  -- the first ones.
  induction t generalizing m with
  | nil => cases journal <;> rfl
  | cons e t ih =>
    obtain ⟨hlog, hfiles⟩ := keepEntry_eq journal m e
    have hnotices : Transcript.notices (e :: t) = e.notice?.toList ++ Transcript.notices t := by
      cases e <;> rfl
    have hmode : (keepEntry journal m e).2.readOnly = m.readOnly := by
      rw [hfiles, readOnly_keepAll]
    rw [hnotices, keepAll_append, ← hfiles, List.flatMap_cons, ← hlog, deliver]
    simp only [ih, hmode]

theorem flatMap_shown_line (journal : Option Journal) (readOnly : Bool) (ls : List LogLine) :
    (ls.map .line).flatMap (shown journal readOnly) = ls := by
  cases journal <;> simp [List.flatMap_map, shown, Entry.logLine]

theorem flatMap_shown_of_writable (journal : Option Journal) (t : Transcript) :
    t.flatMap (shown journal false) = t.log := by
  have hshown : shown journal false = fun e => [e.logLine] := by
    funext e
    cases journal <;> cases e <;> rfl
  rw [hshown, Transcript.log, List.map_eq_flatMap]

/-! ## Files -/

/-- What becomes of a file is told by the file and the notices. -/
theorem get?_keepAll_congr (hmode : m.readOnly = m'.readOnly) {p : String}
    (h : m.get? p = m'.get? p) (journal : Option Journal) (ns : List Notice) :
    (keepAll journal m ns).get? p = (keepAll journal m' ns).get? p := by
  cases journal with
  | none => exact h
  | some j =>
    induction ns generalizing m m' with
    | nil => exact h
    | cons n ns ih =>
      refine ih ?_ (get?_keep_congr hmode h j n)
      rw [readOnly_keep, readOnly_keep, hmode]

/-- After the notices `ns` were added to a journal: their lines stand behind what the journal held
before, and no other file is changed. -/
structure Kept (j : Journal) (ns : List Notice) (m m' : MemoryFiles) : Prop where
  content : (m'.get? j.path).getD [] = (m.get? j.path).getD [] ++ ns.flatMap j.bytes
  others : ∀ p, Component.ofPath p ≠ Component.ofPath j.path → m'.get? p = m.get? p
  unchanged : ns = [] → m' = m

theorem kept_add (j : Journal) (m : MemoryFiles) (n : Notice) : Kept j [n] m (j.add m n) where
  content := by simp [add, MemoryFiles.get?_put]
  others p hp := by rw [add, MemoryFiles.get?_put, if_neg hp]
  unchanged h := by cases h

theorem Kept.trans {ns ms : List Notice} {m₁ m₂ m₃ : MemoryFiles} (h : Kept j ns m₁ m₂)
    (h' : Kept j ms m₂ m₃) : Kept j (ns ++ ms) m₁ m₃ where
  content := by rw [h'.content, h.content, List.flatMap_append, List.append_assoc]
  others p hp := by rw [h'.others p hp, h.others p hp]
  unchanged hnone := by
    obtain ⟨hns, hms⟩ := List.append_eq_nil_iff.mp hnone
    rw [h'.unchanged hms, h.unchanged hns]

theorem kept_keepAll (h : m.readOnly = false) (ns : List Notice) :
    Kept j ns m (keepAll (some j) m ns) := by
  induction ns generalizing m with
  | nil => exact ⟨(List.append_nil _).symm, fun _ _ => rfl, fun _ => rfl⟩
  | cons n ns ih =>
    have hstep : (j.keep m n).2 = j.add m n := by rw [keep_of_writable h]
    have hmode : (j.add m n).readOnly = false := h
    show Kept j ([n] ++ ns) m (keepAll (some j) (j.keep m n).2 ns)
    rw [hstep]
    exact (kept_add j m n).trans (ih hmode)

end Journal
end FileWarden
