import FileWarden.Text.Blank

/-!
# Parts of texts

Before the first separator stands all of a text without it (`takeWhile_ne_append`). A text that is put
together from lines is cut into these lines (`splitOn_lines`), and from other texts into the parts of
each (`splitOn_ended`). Trimming takes away the blanks at an end (`trimEnd_append_blanks`) and leaves
the first character that is none in front (`head?_trim`).
-/

namespace FileWarden
namespace Text

/-! ## Up to a separator -/

section

variable {α : Type} [DecidableEq α] {a : α} {as : List α}

theorem forall_ne_of_not_mem (h : a ∉ as) : ∀ b ∈ as, decide (b ≠ a) = true := fun _ hb =>
  decide_eq_true fun heq => h (heq ▸ hb)

theorem takeWhile_ne_append (h : a ∉ as) (rest : List α) :
    (as ++ a :: rest).takeWhile (· ≠ a) = as := by
  rw [List.takeWhile_append_of_pos (forall_ne_of_not_mem h), List.takeWhile_cons_of_neg (by simp),
    List.append_nil]

theorem dropWhile_ne_append (h : a ∉ as) (rest : List α) :
    (as ++ a :: rest).dropWhile (· ≠ a) = a :: rest := by
  rw [List.dropWhile_append_of_pos (forall_ne_of_not_mem h), List.dropWhile_cons_of_neg (by simp)]

theorem takeWhile_ne_of_not_mem (h : a ∉ as) : as.takeWhile (· ≠ a) = as := by
  rw [← List.append_nil as, List.takeWhile_append_of_pos (forall_ne_of_not_mem h),
    List.takeWhile_nil]

end

/-! ## Parts -/

theorem splitOn_append_sep (sep : Char) (cs rest : List Char) :
    splitOn sep (cs ++ sep :: rest) = splitOn sep cs ++ splitOn sep rest := by
  induction cs with
  | nil => simp [splitOn]
  | cons c cs ih =>
    rw [List.cons_append, splitOn, splitOn, ih]
    split
    · rfl
    · cases hparts : splitOn sep cs with
      | nil => exact absurd hparts (splitOn_ne_nil sep cs)
      | cons part parts => rfl

/-- Texts that are ended one by one are cut into their parts, and an empty one behind them. -/
theorem splitOn_ended (sep : Char) (texts : List (List Char)) :
    splitOn sep (texts.flatMap (· ++ [sep])) = texts.flatMap (splitOn sep) ++ [[]] := by
  induction texts with
  | nil => rfl
  | cons text texts ih =>
    rw [List.flatMap_cons, List.append_assoc, List.singleton_append, splitOn_append_sep, ih,
      List.flatMap_cons, List.append_assoc]

/-- A text without separators goes in front of the first part. -/
theorem splitOn_append_of_not_mem {sep : Char} {cs : List Char} (h : sep ∉ cs)
    (rest : List Char) :
    splitOn sep (cs ++ rest) = (splitOn sep rest).modifyHead (cs ++ ·) := by
  induction cs with
  | nil => exact (congrFun List.modifyHead_id (splitOn sep rest)).symm
  | cons c cs ih =>
    have hc : c ≠ sep := fun hc => h (hc ▸ List.mem_cons_self)
    have hcs : sep ∉ cs := fun hm => h (List.mem_cons_of_mem _ hm)
    rw [List.cons_append, splitOn, if_neg hc, ih hcs, List.modifyHead_modifyHead]
    rfl

/-- A text without separators is one part. -/
theorem splitOn_of_not_mem {sep : Char} {cs : List Char} (h : sep ∉ cs) :
    splitOn sep cs = [cs] := by
  have hparts := splitOn_append_of_not_mem h []
  simpa [splitOn] using hparts

/-- Lines that are ended one by one are found again, and an empty one behind them. -/
theorem splitOn_lines {sep : Char} {lines : List (List Char)} (h : ∀ line ∈ lines, sep ∉ line) :
    splitOn sep (lines.flatMap (· ++ [sep])) = lines ++ [[]] := by
  have hlines : lines.map (splitOn sep) = lines.map ([·]) :=
    List.map_congr_left fun line hline => splitOn_of_not_mem (h line hline)
  rw [splitOn_ended, List.flatMap_def, hlines, ← List.flatMap_def, List.flatMap_singleton']

theorem length_splitOn (sep : Char) (cs : List Char) :
    (splitOn sep cs).length = cs.count sep + 1 := by
  induction cs with
  | nil => rfl
  | cons c cs ih =>
    rw [splitOn]
    split
    · rename_i hc
      rw [List.length_cons, ih, hc, List.count_cons_self]
    · rename_i hc
      rw [List.length_modifyHead, ih, List.count_cons_of_ne hc]

theorem tail_splitOn_eq_nil_iff {sep : Char} {cs : List Char} :
    (splitOn sep cs).tail = [] ↔ sep ∉ cs := by
  rw [← List.length_eq_zero_iff, List.length_tail, length_splitOn, Nat.add_sub_cancel,
    List.count_eq_zero]

/-! ## Trimming -/

theorem trimEnd_append_blanks {cs blanks : List Char} (h : ∀ c ∈ blanks, isBlank c = true) :
    trimEnd (cs ++ blanks) = trimEnd cs := by
  rw [trimEnd, List.reverse_append,
    List.dropWhile_append_of_pos fun c hc => h c (List.mem_reverse.mp hc)]
  rfl

theorem trimEnd_concat {c : Char} (h : isBlank c = false) (cs : List Char) :
    trimEnd (cs ++ [c]) = cs ++ [c] := by
  rw [trimEnd, List.reverse_append, List.reverse_singleton, List.singleton_append,
    List.dropWhile_cons_of_neg (by simp [h]), List.reverse_cons, List.reverse_reverse]

/-- The first character that is no blank stays in front. -/
theorem trimEnd_cons {c : Char} (h : isBlank c = false) (cs : List Char) :
    trimEnd (c :: cs) = c :: trimEnd cs := by
  rw [trimEnd, trimEnd, List.reverse_cons, List.dropWhile_append]
  split
  · rename_i hempty
    rw [List.isEmpty_iff.mp hempty, List.dropWhile_cons_of_neg (by simp [h])]
    rfl
  · rw [List.reverse_append]
    rfl

theorem trim_blanks {cs : List Char} (h : ∀ c ∈ cs, isBlank c = true) : trim cs = [] := by
  rw [trim, ← List.append_nil cs, List.dropWhile_append_of_pos h]
  rfl

theorem head?_trim {cs : List Char} {c : Char} (h : (cs.dropWhile isBlank).head? = some c) :
    (trim cs).head? = some c := by
  cases hcs : cs.dropWhile isBlank with
  | nil => simp [hcs] at h
  | cons d ds =>
    obtain rfl : d = c := by simpa [hcs] using h
    have hd : isBlank d = false := by
      have := List.head?_dropWhile_not isBlank cs
      simpa [hcs] using this
    rw [trim, hcs, trimEnd_cons hd, List.head?_cons]

end Text
end FileWarden
