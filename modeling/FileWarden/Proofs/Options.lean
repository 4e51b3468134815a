import FileWarden.Files.Disk
import FileWarden.Files.Memory
import FileWarden.Proofs.Command
import FileWarden.Proofs.Pattern.Malformed
import FileWarden.Proofs.Policy.Texts
import FileWarden.Proofs.Text.Faultless

/-!
# The rules that options ask for

- **Files** (`MemoryFiles.read_eq_ok_iff`, `Disk.read_eq_ok_iff`): a file is read as a text if its
  bytes are those of the text.
- **Rules** (`Options.rules_eq_ok_iff`): options give rules if there is no fault in them, and the
  rules hold what the options say.
- **Patterns** (`Options.trimmed_of_mem_texts`): no pattern is empty or has blanks at its ends. An
  empty one would match every path (`Pattern.matchesPath_empty`).
- **All of it** (`Options.rules_hold_both_lists`).
-/

namespace FileWarden

/-! ## Files -/

theorem Utf8.exists_decode_iff {bs : List UInt8} {text : String} :
    (∃ cs, Utf8.decode bs = .ok cs ∧ String.ofList cs = text) ↔ bs = Utf8.encode text.toList := by
  simp only [Utf8.decode_eq_ok_iff]
  constructor
  · rintro ⟨cs, rfl, rfl⟩
    rw [String.toList_ofList]
  · rintro rfl
    exact ⟨text.toList, rfl, String.ofList_toList⟩

theorem MemoryFiles.read_eq_ok_iff {m : MemoryFiles} {path text : String} :
    m.read path = .ok text ↔ m.get? path = some (Utf8.encode text.toList) := by
  unfold read
  cases m.get? path with
  | none => simp
  | some bytes =>
    rw [Option.some_inj, ← Utf8.exists_decode_iff]
    cases hdecode : Utf8.decode bytes <;> simp [hdecode]

theorem Disk.read_eq_ok_iff {d : Disk} {path text : String} :
    d.read path = .ok text ↔ d.bytes path = .ok (Utf8.encode text.toList) := by
  unfold read
  cases d.bytes path with
  | error f => simp
  | ok bytes =>
    rw [Except.ok.injEq, ← Utf8.exists_decode_iff]
    cases hdecode : Utf8.decode bytes <;> simp [hdecode]

/-! ## Targets and patterns -/

theorem Target.admits_ofNumber {n q : Pid} : (ofNumber n).admits q = true ↔ n = 0 ∨ n = q := by
  unfold ofNumber
  split
  · rename_i hall
    simp [admits, hall]
  · rename_i hone
    rw [admits, beq_iff_eq, or_iff_right hone, eq_comm]

/-- The empty text stands in every path. -/
theorem Pattern.matchesPath_empty (path : String) : (ofString "").matchesPath path = true := by
  rw [matchesPath, Bool.or_eq_true]
  exact .inr (Text.contains_iff_infix.mpr List.nil_infix)

/-! ## Rules -/

namespace Options

variable {read : String → Except FileError String} {o : Options} {r : Rules} {t : String}

theorem commandTexts_eq (o : Options) :
    o.commandTexts = o.disallowed.elim [] Policy.commaTexts := by
  unfold commandTexts
  cases o.disallowed <;> rfl

/-- Patterns are not empty, and have no blanks at their ends. -/
theorem trimmed_of_mem_texts (h : t ∈ o.texts read) : t ≠ "" ∧ Text.Trimmed t.toList := by
  rcases List.mem_append.mp h with h | h
  · rw [commandTexts_eq] at h
    cases hlist : o.disallowed with
    | none => simp [hlist] at h
    | some s =>
      have hentry := Policy.entry_of_mem_commaTexts (by simpa [hlist] using h)
      exact ⟨hentry.ne_empty, hentry.trimmed⟩
  · cases hfile : o.patternsFile.bind fun path => (read path).toOption with
    | none => simp [hfile] at h
    | some s =>
      have hentry := Policy.entry_of_mem_lineTexts (by simpa [hfile] using h)
      exact ⟨hentry.ne_empty, hentry.trimmed⟩

/-- What options need to give rules. -/
structure Faultless (read : String → Except FileError String) (o : Options) : Prop where
  threshold : o.threshold ≠ 0
  file : ∀ path ∈ o.patternsFile, ∃ text, read path = .ok text
  texts : o.texts read ≠ []

theorem Faultless.rules_eq (h : Faultless read o) : o.rules read =
    .ok ⟨.ofTexts (o.texts read), o.threshold, .ofNumber o.pid, h.threshold⟩ := by
  have hvalid : o.validate = .ok () := by
    rw [validate, if_neg h.threshold, if_neg]
    rintro ⟨hnone, hnil⟩
    exact h.texts (by simp [Options.texts, hnone, hnil])
  have hfile : ∃ ts, o.fileTexts read = .ok ts ∧ o.commandTexts ++ ts = o.texts read := by
    unfold fileTexts Options.texts
    cases hpath : o.patternsFile with
    | none => exact ⟨[], rfl, rfl⟩
    | some path =>
      obtain ⟨text, htext⟩ := h.file path hpath
      exact ⟨Policy.lineTexts text, by simp [htext], by simp [htext, Except.toOption]⟩
  obtain ⟨ts, hts, htexts⟩ := hfile
  simp only [rules, hvalid, hts, Except.mapError, bind, Except.bind, htexts, if_neg h.texts,
    Rules.make, dif_neg h.threshold]

/-- Options that give rules are without fault. -/
theorem faultless_of_rules (h : o.rules read = .ok r) : Faultless read o := by
  have hfirst : firstFault (o.faults read) = none := by rw [← fault?_rules, h, fault?]
  have hnone : ∀ fault ∈ o.faults read, fault = none := List.findSome?_eq_none_iff.mp hfirst
  simp only [faults, List.forall_mem_cons] at hnone
  obtain ⟨hthreshold, -, hfile, htexts, -⟩ := hnone
  refine ⟨by simpa using hthreshold, fun path hpath => ?_, by simpa using htexts⟩
  rw [Option.mem_def.mp hpath] at hfile
  cases hread : read path with
  | ok text => exact ⟨text, rfl⟩
  | error cause => simp [hread, fault?] at hfile

theorem rules_eq_ok_iff : o.rules read = .ok r ↔ ∃ h : Faultless read o,
    r = ⟨.ofTexts (o.texts read), o.threshold, .ofNumber o.pid, h.threshold⟩ := by
  constructor
  · intro h
    have hfaultless := faultless_of_rules h
    exact ⟨hfaultless, Except.ok.inj (h.symm.trans hfaultless.rules_eq)⟩
  · rintro ⟨h, rfl⟩
    exact h.rules_eq

/-- **Which options give rules, and which rules.** The threshold must be at least 1, the file of
patterns readable, if there is one, and some pattern given. The patterns are those of the command
line and then those of the file; none is empty or has blanks at its ends. -/
theorem rules_hold_both_lists (read : String → Except FileError String) (o : Options) :
    let file := o.patternsFile.bind fun path => (read path).toOption
    let texts := o.disallowed.elim [] Policy.commaTexts ++ file.elim [] Policy.lineTexts
    ((∃ r, o.rules read = .ok r) ↔ 1 ≤ o.threshold.toNat ∧
      (∀ path ∈ o.patternsFile, ∃ text, read path = .ok text) ∧ texts ≠ []) ∧
    (∀ r, o.rules read = .ok r → r.policy = .ofTexts texts ∧ r.policy.texts = texts ∧
      (∀ t ∈ r.policy.texts, t ≠ "" ∧ Text.Trimmed t.toList) ∧ r.threshold = o.threshold ∧
      ∀ q, r.target.admits q = true ↔ o.pid = 0 ∨ o.pid = q) ∧
    (∀ path, (Pattern.ofString "").matchesPath path = true) ∧
    ∀ (m : MemoryFiles) (d : Disk) (path text : String),
      (m.read path = .ok text ↔ m.get? path = some (Utf8.encode text.toList)) ∧
      (d.read path = .ok text ↔ d.bytes path = .ok (Utf8.encode text.toList)) := by
  intro file texts
  have htexts : o.texts read = texts := congrArg (· ++ _) (commandTexts_eq o)
  have hthreshold : 1 ≤ o.threshold.toNat ↔ o.threshold ≠ 0 := by
    rw [Nat.one_le_iff_ne_zero, ne_eq, ne_eq, ← UInt32.toNat_inj, UInt32.toNat_zero]
  refine ⟨⟨?_, ?_⟩, fun r hr => ?_, Pattern.matchesPath_empty,
    fun m d path text => ⟨MemoryFiles.read_eq_ok_iff, Disk.read_eq_ok_iff⟩⟩
  · rintro ⟨r, hr⟩
    have hfaultless := faultless_of_rules hr
    exact ⟨hthreshold.mpr hfaultless.threshold, hfaultless.file, htexts ▸ hfaultless.texts⟩
  · rintro ⟨hpos, hfile, hne⟩
    exact ⟨_, Faultless.rules_eq ⟨hthreshold.mp hpos, hfile, htexts ▸ hne⟩⟩
  · obtain ⟨hfaultless, rfl⟩ := rules_eq_ok_iff.mp hr
    rw [htexts, Policy.texts_ofTexts]
    exact ⟨rfl, rfl, fun t ht => trimmed_of_mem_texts (htexts ▸ ht), rfl,
      fun q => Target.admits_ofNumber⟩

/-- Blank entries on both sides, a comment and a carriage return: two patterns are left. With nothing
else in either list, there are no rules. -/
theorem rules_of_padded_lists :
    let m := (MemoryFiles.mk [] false).put "patterns" (Utf8.encode "# one\r\n /root/*\r\n".toList)
    let o : Options := ⟨some ", /etc,\u00a0", some "patterns", 1, 7, none⟩
    let bare : Options := ⟨some ", ,\u00a0", none, 1, 7, none⟩
    m.read "patterns" = .ok "# one\r\n /root/*\r\n" ∧
    (∃ r, o.rules m.read = .ok r ∧ r.policy.texts = ["/etc", "/root/*"] ∧
      r.target.admits 7 = true ∧ ¬ r.target.admits 8 = true) ∧
    ¬ ∃ r, bare.rules m.read = .ok r := by
  intro m o bare
  obtain ⟨⟨-, hgive⟩, hhold, -, hfiles⟩ := rules_hold_both_lists m.read o
  obtain ⟨hneed, -⟩ := (rules_hold_both_lists m.read bare).1
  have hread : m.read "patterns" = .ok "# one\r\n /root/*\r\n" :=
    (hfiles m ⟨[], []⟩ _ _).1.mpr (by decide +kernel)
  have htexts : o.disallowed.elim [] Policy.commaTexts ++
      (o.patternsFile.bind fun path => (m.read path).toOption).elim [] Policy.lineTexts =
        ["/etc", "/root/*"] := by decide +kernel
  have hfile : ∀ path ∈ o.patternsFile, ∃ text, m.read path = .ok text := by
    intro path hpath
    obtain rfl : "patterns" = path := Option.some.inj hpath
    exact ⟨_, hread⟩
  obtain ⟨r, hr⟩ := hgive ⟨by decide, hfile, by simp [htexts]⟩
  obtain ⟨-, hr_texts, -, -, hr_target⟩ := hhold r hr
  have hothers : ¬ r.target.admits 8 = true := by
    rw [hr_target]
    decide
  exact ⟨hread, ⟨r, hr, hr_texts.trans htexts, (hr_target 7).mpr (by decide), hothers⟩,
    fun hsome => (hneed hsome).2.2 (by decide +kernel)⟩

end Options
end FileWarden
