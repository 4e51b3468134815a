import FileWarden.Policy.Texts
import FileWarden.Proofs.Text.Trimmed

/-!
# Lists of patterns are read back

- **Formats** (`ListFormat`): the lists with commas and those with lines differ in what separates
  their parts, and in whether there are comments.
- **Entries** (`ListFormat.Entry`): the texts that a list can hold. What is read from any text is
  such texts (`ListFormat.entry_of_mem_texts`).
- **Parts** (`ListFormat.Part`): what can stand between separators. A list is read part by part
  (`ListFormat.texts_append_sep`), and each part gives its entry, if it has one
  (`ListFormat.texts_part`).
- **Lists** (`lists_read_back`): entries that are joined are read as these entries, and what was
  read can be joined and read again.
-/

namespace FileWarden
namespace Policy

/-- How a list is written: what separates its parts, and what a comment begins with, if there are
comments. -/
structure ListFormat where
  sep : Char
  comment? : Option Char

namespace ListFormat

variable {f : ListFormat} {t : String}

/-- The parts of a list stand between commas, and there are no comments. -/
def commas : ListFormat := ⟨',', none⟩

/-- The parts of a list stand on lines. A comment begins with `#`. -/
def lines : ListFormat := ⟨'\n', some '#'⟩

/-- Whether a trimmed part holds an entry: it is not empty and no comment. -/
def counts (f : ListFormat) (part : List Char) : Bool :=
  part ≠ [] && f.comment?.all fun c => part.head? ≠ some c

/-- The entries of a list. -/
def texts (f : ListFormat) (s : List Char) : List String :=
  (((Text.splitOn f.sep s).map Text.trim).filter f.counts).map String.ofList

theorem commaTexts_eq (s : String) : commaTexts s = commas.texts s.toList := by
  have hcounts : commas.counts = fun part => decide (part ≠ []) := by
    funext part
    simp [counts, commas]
  rw [texts, hcounts]
  rfl

theorem lineTexts_eq (s : String) : lineTexts s = lines.texts s.toList := rfl

/-! ## Entries -/

/-- A text that a list can hold: it is not empty, begins and ends without blanks, holds no separator
and does not begin like a comment. -/
structure Entry (f : ListFormat) (t : String) : Prop where
  ne_empty : t ≠ ""
  trimmed : Text.Trimmed t.toList
  sep_not_mem : f.sep ∉ t.toList
  not_comment : ∀ c ∈ f.comment?, t.toList.head? ≠ some c

theorem counts_iff {part : List Char} : f.counts part = true ↔
    part ≠ [] ∧ ∀ c ∈ f.comment?, part.head? ≠ some c := by
  simp [counts, Option.all_eq_true]

theorem entry_iff :
    f.Entry t ↔ f.counts t.toList = true ∧ Text.Trimmed t.toList ∧ f.sep ∉ t.toList := by
  have hempty : t.toList ≠ [] ↔ t ≠ "" := not_congr String.toList_eq_nil_iff
  rw [counts_iff, hempty]
  exact ⟨fun ⟨ne, trimmed, sep, comment⟩ => ⟨⟨ne, comment⟩, trimmed, sep⟩,
    fun ⟨⟨ne, comment⟩, trimmed, sep⟩ => ⟨ne, trimmed, sep, comment⟩⟩

instance : Decidable (f.Entry t) := decidable_of_iff _ entry_iff.symm

theorem Entry.counts (h : f.Entry t) : f.counts t.toList = true := (entry_iff.mp h).1

/-- What is read from a list can stand in a list. -/
theorem entry_of_mem_texts {s : List Char} (h : t ∈ f.texts s) : f.Entry t := by
  obtain ⟨part, hpart, rfl⟩ := List.mem_map.mp h
  obtain ⟨hmem, hcounts⟩ := List.mem_filter.mp hpart
  obtain ⟨raw, hraw, rfl⟩ := List.mem_map.mp hmem
  rw [entry_iff, String.toList_ofList]
  exact ⟨hcounts, Text.trimmed_trim raw,
    fun hsep => Text.sep_not_mem_of_mem_splitOn hraw ((Text.trim_infix raw).subset hsep)⟩

/-! ## Parts -/

/-- What stands between separators. -/
inductive Part where
  /-- An entry with blanks around it. -/
  | entry (before : List Char) (t : String) (after : List Char)
  /-- A part without an entry. -/
  | filler (text : List Char)

namespace Part

/-- The text of a part. -/
def text : Part → List Char
  | entry before t after => before ++ t.toList ++ after
  | filler text => text

/-- The entry in a part. -/
def entry? : Part → Option String
  | entry _ t _ => some t
  | filler _ => none

/-- Blanks are blanks, and a filler is blank or a comment; no part goes over a separator. -/
def Sound (f : ListFormat) : Part → Prop
  | entry before t after =>
    f.Entry t ∧ (∀ c ∈ before ++ after, Text.isBlank c = true) ∧ f.sep ∉ before ++ after
  | filler text =>
    ((∀ c ∈ text, Text.isBlank c = true) ∨
      ∃ c ∈ f.comment?, (text.dropWhile Text.isBlank).head? = some c) ∧ f.sep ∉ text

-- The instances for what is in a list or an option are named: with one for all characters in scope,
-- a decision would go through them all.
instance (f : ListFormat) : DecidablePred (Sound f)
  | entry before t after =>
    have := List.decidableBAll (Text.isBlank · = true) (before ++ after)
    inferInstanceAs (Decidable (f.Entry t ∧ _ ∧ f.sep ∉ before ++ after))
  | filler text =>
    have := List.decidableBAll (Text.isBlank · = true) text
    have (first : Option Char) : Decidable (∃ c ∈ f.comment?, first = some c) :=
      decidable_of_iff (f.comment?.any fun c => first = some c) (by simp [Option.any_eq_true])
    inferInstanceAs (Decidable ((_ ∨ ∃ c ∈ f.comment?, _) ∧ f.sep ∉ text))

/-- Parts with a text between them. -/
def joined (between : String) (parts : List Part) : String :=
  String.intercalate between (parts.map fun p => String.ofList p.text)

theorem toList_joined (between : String) (parts : List Part) :
    (joined between parts).toList = between.toList.intercalate (parts.map text) := by
  simp [joined, Function.comp_def]

end Part

/-- A list is read part by part. -/
theorem texts_append_sep (f : ListFormat) (s rest : List Char) :
    f.texts (s ++ f.sep :: rest) = f.texts s ++ f.texts rest := by
  simp only [texts, Text.splitOn_append_sep, List.map_append, List.filter_append]

theorem texts_of_sep_not_mem {s : List Char} (h : f.sep ∉ s) : f.texts s =
    if f.counts (Text.trim s) then [String.ofList (Text.trim s)] else [] := by
  rw [texts, Text.splitOn_of_not_mem h, List.map_singleton, List.filter_singleton]
  cases f.counts (Text.trim s) <;> rfl

theorem counts_nil (f : ListFormat) : f.counts [] = false := rfl

/-- A part gives its entry, if it has one. Blanks behind it make no difference. -/
theorem texts_part {p : Part} (h : p.Sound f) (pad : List Char)
    (hpad : ∀ c ∈ pad, Text.isBlank c = true) (hsep : f.sep ∉ pad) :
    f.texts (p.text ++ pad) = p.entry?.toList := by
  cases p with
  | entry before t after =>
    obtain ⟨hentry, hblanks, hline⟩ := h
    rw [List.forall_mem_append] at hblanks
    have htrim : Text.trim (before ++ t.toList ++ after ++ pad) = t.toList := by
      rw [List.append_assoc]
      exact hentry.trimmed.trim_padded hblanks.1 (List.forall_mem_append.mpr ⟨hblanks.2, hpad⟩)
    have hnone : f.sep ∉ before ++ t.toList ++ after ++ pad := by
      simp only [List.mem_append, not_or] at hline ⊢
      exact ⟨⟨⟨hline.1, hentry.sep_not_mem⟩, hline.2⟩, hsep⟩
    rw [Part.text, texts_of_sep_not_mem hnone, htrim, if_pos hentry.counts, String.ofList_toList]
    rfl
  | filler text =>
    obtain ⟨hfiller, hline⟩ := h
    have hnone : f.sep ∉ text ++ pad := fun hmem =>
      (List.mem_append.mp hmem).elim hline hsep
    have hcounts : f.counts (Text.trim text) = false := by
      rcases hfiller with hblanks | ⟨c, hc, hhead⟩
      · rw [Text.trim_blanks hblanks, counts_nil]
      · rw [← Bool.not_eq_true, counts_iff]
        exact fun ⟨_, hcomment⟩ => hcomment c hc (Text.head?_trim hhead)
    rw [Part.text, texts_of_sep_not_mem hnone, Text.trim_append_blanks hpad, hcounts]
    rfl

/-- Parts are read in order. Blanks may stand before the separators. -/
theorem texts_joined {parts : List Part} (h : ∀ p ∈ parts, p.Sound f) (pad : List Char)
    (hpad : ∀ c ∈ pad, Text.isBlank c = true) (hsep : f.sep ∉ pad) :
    f.texts ((pad ++ [f.sep]).intercalate (parts.map Part.text)) =
      parts.filterMap Part.entry? := by
  induction parts with
  | nil => rfl
  | cons p parts ih =>
    obtain ⟨hp, hparts⟩ := List.forall_mem_cons.mp h
    cases parts with
    | nil =>
      have hlast := texts_part hp [] (by simp) List.not_mem_nil
      rw [List.append_nil] at hlast
      rw [List.map_singleton, List.intercalate_singleton, hlast]
      cases p <;> rfl
    | cons q parts =>
      have hshape (rest : List Char) :
          p.text ++ (pad ++ [f.sep]) ++ rest = p.text ++ pad ++ f.sep :: rest := by simp
      rw [List.map_cons, List.map_cons, List.intercalate_cons_cons, hshape, texts_append_sep,
        texts_part hp pad hpad hsep, ← List.map_cons, ih hparts]
      cases p <;> rfl

/-- Entries that are joined are read back. -/
theorem texts_intercalate {ts : List String} (h : ∀ t ∈ ts, f.Entry t) :
    f.texts ([f.sep].intercalate (ts.map String.toList)) = ts := by
  have hsound : ∀ p ∈ ts.map (Part.entry [] · []), p.Sound f := by
    intro p hp
    obtain ⟨t, ht, rfl⟩ := List.mem_map.mp hp
    exact ⟨h t ht, by simp, List.not_mem_nil⟩
  have hread := texts_joined hsound [] (by simp) List.not_mem_nil
  have htexts : (ts.map (Part.entry [] · [])).map Part.text = ts.map String.toList := by
    simp [Part.text]
  have hentries : (ts.map (Part.entry [] · [])).filterMap Part.entry? = ts := by
    rw [List.filterMap_map]
    exact List.filterMap_some
  rwa [List.nil_append, htexts, hentries] at hread

end ListFormat

/-! ## Lists -/

open ListFormat

theorem entry_of_mem_commaTexts {s t : String} (h : t ∈ commaTexts s) : commas.Entry t :=
  entry_of_mem_texts (commaTexts_eq s ▸ h)

theorem entry_of_mem_lineTexts {s t : String} (h : t ∈ lineTexts s) : lines.Entry t :=
  entry_of_mem_texts (lineTexts_eq s ▸ h)

/-- **Lists of patterns are read back.** Texts that could be entries are read from the list that
commas or newlines join them to, whatever blanks, empty parts, comments and carriage returns stand
around them. From any text only such texts are read, and they read back the same. -/
theorem lists_read_back :
    (∀ ts : List String, (∀ t ∈ ts, commas.Entry t) →
      commaTexts (String.intercalate "," ts) = ts) ∧
    (∀ ts : List String, (∀ t ∈ ts, lines.Entry t) →
      lineTexts (String.intercalate "\n" ts) = ts) ∧
    (∀ parts : List Part, (∀ p ∈ parts, p.Sound commas) →
      commaTexts (Part.joined "," parts) = parts.filterMap Part.entry?) ∧
    (∀ parts : List Part, (∀ p ∈ parts, p.Sound lines) →
      ∀ ending, ending = "\n" ∨ ending = "\r\n" →
        lineTexts (Part.joined ending parts) = parts.filterMap Part.entry?) ∧
    ∀ s : String,
      ((∀ t ∈ commaTexts s, commas.Entry t) ∧
        commaTexts (String.intercalate "," (commaTexts s)) = commaTexts s) ∧
      ((∀ t ∈ lineTexts s, lines.Entry t) ∧
        lineTexts (String.intercalate "\n" (lineTexts s)) = lineTexts s) := by
  have hcommas (ts : List String) (h : ∀ t ∈ ts, commas.Entry t) :
      commaTexts (String.intercalate "," ts) = ts := by
    rw [commaTexts_eq, String.toList_intercalate]
    exact texts_intercalate h
  have hlines (ts : List String) (h : ∀ t ∈ ts, lines.Entry t) :
      lineTexts (String.intercalate "\n" ts) = ts := by
    rw [lineTexts_eq, String.toList_intercalate]
    exact texts_intercalate h
  refine ⟨hcommas, hlines, fun parts h => ?_, fun parts h ending hending => ?_, fun s => ?_⟩
  · rw [commaTexts_eq, Part.toList_joined]
    exact texts_joined h [] (by simp) List.not_mem_nil
  · rw [lineTexts_eq, Part.toList_joined]
    rcases hending with rfl | rfl
    · exact texts_joined h [] (by simp) List.not_mem_nil
    · exact texts_joined h ['\r'] (by simp [Text.isBlank]) (by decide)
  · exact ⟨⟨fun _ => entry_of_mem_commaTexts, hcommas _ fun _ => entry_of_mem_commaTexts⟩,
      ⟨fun _ => entry_of_mem_lineTexts, hlines _ fun _ => entry_of_mem_lineTexts⟩⟩

/-- Lines with a comment, a blank line and carriage returns, of which one stands inside an entry, and
a list with commas that has an empty part and an entry that would be a comment on a line. -/
theorem padded_lists_read_back :
    let onLines : List Part := [.filler "  # one a line".toList, .filler ['\u00a0'],
      .entry ['\t'] "/etc/a,b" [' '], .entry [] "x\ry #" []]
    let withCommas : List Part := [.entry [] "#x" ['\n'], .filler [], .entry [' '] "/root/*" []]
    (∀ p ∈ onLines, p.Sound lines) ∧ (∀ p ∈ withCommas, p.Sound commas) ∧
    Part.joined "\r\n" onLines = "  # one a line\r\n\u00a0\r\n\t/etc/a,b \r\nx\ry #" ∧
    lineTexts (Part.joined "\r\n" onLines) = ["/etc/a,b", "x\ry #"] ∧
    Part.joined "," withCommas = "#x\n,, /root/*" ∧
    commaTexts (Part.joined "," withCommas) = ["#x", "/root/*"] := by
  intro onLines withCommas
  have hlines : ∀ p ∈ onLines, p.Sound lines := by decide +kernel
  have hcommas : ∀ p ∈ withCommas, p.Sound commas := by decide +kernel
  obtain ⟨-, -, hreadCommas, hreadLines, -⟩ := lists_read_back
  exact ⟨hlines, hcommas, by decide +kernel, hreadLines onLines hlines _ (.inr rfl),
    by decide +kernel, hreadCommas withCommas hcommas⟩

end Policy
end FileWarden
