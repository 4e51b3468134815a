import FileWarden.Proofs.Pattern.Grammar
import FileWarden.Proofs.Pattern.Members
import FileWarden.Proofs.Pattern.Wildcard
import Mathlib.Data.List.TakeWhile

/-!
# Classes, written and read back

- **The `!`** (`Arranges`): what becomes of the parts of a class that is not negated, so that it does
  not begin with `!`. Of `!` and `-` alone (`OnlyBangAndDash`) it still does: the `!` is put in front
  of the `-`, and that is the front of the class. It is written `[!-]`.
- **The token** (`reads_classText`): the text of a class is read back as one token, wherever it stands.
- **The characters** (`class_takes_members`): the text takes the characters of the members, unless
  these are `!` and `-` alone. Then it takes every character but `-`.
- **Negated classes** (`negated_class_takes_others`): the text takes the characters outside the
  members, whatever these are.
-/

namespace FileWarden
namespace Shell

variable {i j : Interval} {is js : List Interval} {c : Char}

/-! ## The `!` -/

/-- Members that are `!` and `-`, both of them and nothing else. -/
def OnlyBangAndDash (is : List Interval) : Prop :=
  .single '!' ∈ is ∧ .single '-' ∈ is ∧ ∀ i ∈ is, i = .single '!' ∨ i = .single '-'

instance : DecidablePred OnlyBangAndDash := fun _ => inferInstanceAs (Decidable (_ ∧ _ ∧ _))

/-- What becomes of the parts of a class that is not negated. -/
inductive Arranges (is : List Interval) : List Interval → Prop where
  | bangs : (∀ i ∈ is, i = .single '!') → Arranges is []
  | bangAndDash : OnlyBangAndDash is → Arranges is [.single '!', .single '-']
  | led {j : Interval} {js : List Interval} : ¬ OnlyBangAndDash is → j.lo ≠ '!' →
    Placed (j :: js) → (∀ c, Interval.anyHolds (j :: js) c = Interval.anyHolds is c) →
    Arranges is (j :: js)

/-- A member that holds no new character may stand in front. -/
theorem anyHolds_cons (h : ∀ c, j.holds c = true → Interval.anyHolds is c = true) (c : Char) :
    Interval.anyHolds (j :: is) c = Interval.anyHolds is c := by
  show (j.holds c || Interval.anyHolds is c) = _
  cases hj : j.holds c with
  | true => rw [h c hj]; rfl
  | false => rfl

theorem anyHolds_congr (h : ∀ i, i ∈ is ↔ i ∈ js) (c : Char) :
    Interval.anyHolds is c = Interval.anyHolds js c := by
  rw [Bool.eq_iff_iff, Interval.anyHolds_iff, Interval.anyHolds_iff]
  simp only [h]

theorem Placed.cons (h : Placed is) (hlo : ∀ i ∈ is, i.lo ≠ ']') (hj : Tidy j)
    (hdash : j.lo ≠ '-') : Placed (j :: is) where
  tidy i hi := by
    rcases List.mem_cons.mp hi with rfl | hi
    · exact hj
    · exact h.tidy i hi
  edges := List.pairwise_cons.mpr ⟨fun i hi => ⟨hdash, hlo i hi⟩, h.edges⟩

/-- In front of the `-` there is room for any other member. -/
theorem Placed.insert (h : Placed is) (hlo : ∀ i ∈ is, i.lo ≠ ']') (hj : Tidy j)
    (hdash : j.lo ≠ '-') (hbracket : j.lo ≠ ']') :
    Placed (is.takeWhile (· ≠ .single '-') ++ j :: is.dropWhile (· ≠ .single '-')) := by
  have hfront : ∀ i ∈ is.takeWhile (· ≠ .single '-'), i ∈ is ∧ i.lo ≠ '-' := by
    intro i hi
    have hmem := (List.takeWhile_sublist _).subset hi
    refine ⟨hmem, fun hlo => ?_⟩
    have := List.mem_takeWhile_imp hi
    simp [(h.tidy i hmem).dash (.inl hlo)] at this
  have hback : Placed (j :: is.dropWhile (· ≠ .single '-')) := by
    have hsub : (is.dropWhile (· ≠ .single '-')).Sublist is := List.dropWhile_sublist _
    exact (h.sublist hsub).cons (fun i hi => hlo i (hsub.subset hi)) hj hdash
  constructor
  · intro i hi
    rcases List.mem_append.mp hi with hi | hi
    · exact h.tidy i (hfront i hi).1
    · exact hback.tidy i hi
  · refine List.pairwise_append.mpr ⟨h.edges.sublist (List.takeWhile_sublist _), hback.edges, ?_⟩
    intro i hi k hk
    refine ⟨(hfront i hi).2, ?_⟩
    rcases List.mem_cons.mp hk with rfl | hk
    · exact hbracket
    · exact hlo k ((List.dropWhile_sublist _).subset hk)

theorem arranged_true (is : List Interval) : arranged true is = parts is := rfl

theorem arranged_of_head (h : (parts is).head?.map (·.lo) ≠ some '!') :
    arranged false is = parts is := if_pos (by simpa using h)

theorem arranged_of_bang (h : (parts is).head?.map (·.lo) = some '!') :
    arranged false is = bangMoved (parts is) := if_neg (by simpa using h)

/-- If a `!` is first, only `-` can come with others that begin with `!`. -/
theorem lo_of_bang (h : (parts is).head?.map (·.lo) = some '!') (hi : i ∈ parts is) :
    i.lo = '!' ∨ i = .single '-' := by
  have hrank := pairwise_parts is
  cases heq : parts is with
  | nil => rw [heq] at h; cases h
  | cons j js =>
    rw [heq] at h hi hrank
    have hj : rank j = 2 := by
      have hlo : j.lo = '!' := by simpa using h
      have hne : j ≠ .single '-' := by
        rintro rfl
        cases hlo
      rw [rank, if_neg (by rw [hlo]; decide), if_neg hne, if_pos hlo]
    have hle : 2 ≤ rank i := by
      rcases List.mem_cons.mp hi with rfl | hi
      · exact hj.ge
      · rw [← hj]
        exact (List.pairwise_cons.mp hrank).1 i hi
    unfold rank at hle
    split at hle
    · omega
    · split at hle
      · exact .inr ‹_›
      · split at hle
        · exact .inl ‹_›
        · omega

/-- The end of a range `!-hi` may stand in front, as a member of its own. -/
theorem arranges_led (hi : i ∈ is) (htidy : Tidy i) (hbang : i.lo = '!') (hne : i ≠ .single '!')
    (hjs : Placed js) (hbracket : ∀ j ∈ js, j.lo ≠ ']') (hmem : ∀ j, j ∈ js ↔ j ∈ is) :
    Arranges is (.single i.hi :: js) := by
  have hhi : i.hi ≠ '!' := by
    intro hhi
    obtain ⟨lo, hi⟩ := i
    cases hbang
    cases hhi
    exact hne rfl
  have hdash : i.hi ≠ '-' := by
    intro hhi
    rw [htidy.dash (.inr hhi)] at hbang
    cases hbang
  have hle : i.lo ≤ i.hi := Char.not_lt.mp fun hlt => (htidy.bang hlt).1 hbang
  have honly : ¬ OnlyBangAndDash is := by
    rintro ⟨-, -, h⟩
    rcases h i hi with rfl | rfl
    · exact hne rfl
    · cases hbang
  refine .led honly hhi (hjs.cons hbracket (tidy_single _) hdash) fun c => ?_
  rw [anyHolds_cons, anyHolds_congr hmem]
  intro c hc
  rw [Interval.holds_iff] at hc
  obtain rfl := Char.le_antisymm hc.2 hc.1
  exact Interval.anyHolds_iff.mpr ⟨i, (hmem i).mpr hi, hle, Char.le_refl _⟩

section
variable {others : List Interval} (hplaced : Placed is)
  (ho : is.filter (· ≠ .single '!') = i :: others)

include ho in
theorem mem_others : j ∈ i :: others ↔ j ∈ is ∧ j ≠ .single '!' := by
  rw [← ho]
  simp [List.mem_filter]

include ho in
theorem others_sublist : (i :: others).Sublist is := by
  rw [← ho]
  exact List.filter_sublist

include hplaced ho

/-- A range `!-hi` is among the parts. -/
theorem arranges_range (hbracket : ∀ j ∈ is, j.lo ≠ ']') (hbang : i.lo = '!') :
    Arranges is (bangMoved is) := by
  obtain ⟨hi, hne⟩ := (mem_others ho).mp (List.mem_cons_self ..)
  have hsub := others_sublist ho
  have htidy := hplaced.tidy i hi
  have hothers := hplaced.sublist hsub
  have hbracket' : ∀ j ∈ i :: others, j.lo ≠ ']' := fun j hj => hbracket j (hsub.subset hj)
  by_cases hfirst : Interval.single '!' ∈ is
  · have hdash : Interval.single i.hi ≠ .single '-' := by
      intro heq
      have := htidy.dash (.inr (congrArg Interval.lo heq))
      rw [this] at hbang
      cases hbang
    have : bangMoved is = .single i.hi :: ((i :: others).takeWhile (· ≠ .single '-') ++
        .single '!' :: (i :: others).dropWhile (· ≠ .single '-')) := by
      have hcontains : is.contains (.single '!') = true := List.contains_iff_mem.mpr hfirst
      simp only [bangMoved, ho, if_pos hbang, hcontains]
      rw [List.takeWhile_cons_of_pos (by simpa using hdash),
        List.dropWhile_cons_of_pos (by simpa using hdash)]
      rfl
    rw [this]
    have hmem : ∀ j, j ∈ (i :: others).takeWhile (· ≠ .single '-') ++
        .single '!' :: (i :: others).dropWhile (· ≠ .single '-') ↔ j ∈ is := by
      intro j
      rw [List.mem_append, List.mem_cons, or_left_comm, ← List.mem_append,
        List.takeWhile_append_dropWhile, mem_others ho]
      by_cases hj : j = .single '!'
      · simp [hj, hfirst]
      · simp [hj]
    refine arranges_led hi htidy hbang hne ?_ (fun j hj => hbracket j ((hmem j).mp hj)) hmem
    exact hothers.insert hbracket' (tidy_single '!') (by decide) (by decide)
  · have : bangMoved is = .single i.hi :: i :: others := by
      simp only [bangMoved, ho, if_pos hbang]
      simp [hfirst]
    rw [this]
    refine arranges_led hi htidy hbang hne hothers hbracket' fun j => ?_
    rw [mem_others ho]
    exact ⟨And.left, fun hj => ⟨hj, fun h => hfirst (h ▸ hj)⟩⟩

/-- If `-` is the only other part, the `!` in front of it is at the front again. -/
theorem arranges_dash (hi : i = .single '-') (hfirst : .single '!' ∈ is) :
    Arranges is (bangMoved is) := by
  subst hi
  obtain rfl := (hplaced.sublist (others_sublist ho)).nil_of_dash rfl
  have : bangMoved is = [.single '!', .single '-'] := by
    simp only [bangMoved, ho]
    simp [hfirst]
    rfl
  rw [this]
  refine .bangAndDash ⟨hfirst, ((mem_others ho).mp (List.mem_cons_self ..)).1, fun j hj => ?_⟩
  by_cases h : j = .single '!'
  · exact .inl h
  · exact .inr (List.mem_singleton.mp ((mem_others ho).mpr ⟨hj, h⟩))

end

theorem arranges_bangMoved (hplaced : Placed is) (hlo : ∀ i ∈ is, i.lo = '!' ∨ i = .single '-')
    (hhead : is.head?.map (·.lo) = some '!') : Arranges is (bangMoved is) := by
  have hbracket : ∀ i ∈ is, i.lo ≠ ']' := by
    intro i hi
    rcases hlo i hi with h | rfl
    · rw [h]; decide
    · decide
  cases ho : is.filter (· ≠ .single '!') with
  | nil =>
    have : bangMoved is = [] := by
      simp only [bangMoved, ho]
      rfl
    rw [this]
    refine .bangs fun i hi => ?_
    have := List.filter_eq_nil_iff.mp ho i hi
    simpa using this
  | cons i others =>
    by_cases hbang : i.lo = '!'
    · exact arranges_range hplaced ho hbracket hbang
    · have hi := ((mem_others ho).mp (List.mem_cons_self ..)).1
      refine arranges_dash hplaced ho ((hlo i hi).resolve_left hbang) ?_
      -- The first part is no range, or it would be `i`.
      obtain ⟨j, hj, hjlo⟩ := Option.map_eq_some_iff.mp hhead
      cases is with
      | nil => cases hj
      | cons k ks =>
        cases hj
        by_cases h : j = .single '!'
        · exact h ▸ List.mem_cons_self ..
        · rw [List.filter_cons_of_pos (by simpa using h)] at ho
          cases ho
          exact absurd hjlo hbang

theorem arranges_arranged (h : is ≠ []) : Arranges (parts is) (arranged false is) := by
  by_cases hhead : (parts is).head?.map (·.lo) = some '!'
  · rw [arranged_of_bang hhead]
    exact arranges_bangMoved (placed_parts is) (fun i => lo_of_bang hhead) hhead
  · rw [arranged_of_head hhead]
    have hplaced := placed_parts is
    cases heq : parts is with
    | nil => exact absurd heq (parts_ne_nil h)
    | cons j js =>
      rw [heq] at hhead hplaced
      have hlo : j.lo ≠ '!' := by simpa using hhead
      refine .led ?_ hlo hplaced fun c => rfl
      rintro ⟨hbang, -, honly⟩
      -- The first part is `-`, so it is the last one too.
      rcases List.mem_cons.mp hbang with rfl | hmem
      · exact hlo rfl
      · obtain rfl := (honly j (List.mem_cons_self ..)).resolve_left fun h => hlo (h ▸ rfl)
        rw [hplaced.nil_of_dash rfl] at hmem
        cases hmem

/-- An interval that splits into `!` and `-` is one of them. -/
theorem Splits.bang_or_dash (h : Splits i is) (his : ∀ j ∈ is, j = .single '!' ∨ j = .single '-') :
    i = .single '!' ∨ i = .single '-' := by
  cases h with
  | whole => exact his i (List.mem_cons_self ..)
  | empty => exact absurd (his _ (List.mem_cons_self ..)) (by decide)
  | bracketLo => exact absurd (his _ (List.mem_cons_self ..)) (by decide)
  | bracketHi => exact absurd (his _ (List.mem_cons_self ..)) (by decide)
  | dashLo =>
    have := his _ (List.mem_cons_of_mem _ (List.mem_cons_self ..))
    simp [Interval.single] at this
  | dashHi =>
    have := his _ (List.mem_cons_of_mem _ (List.mem_cons_self ..))
    simp [Interval.single] at this
  | both => exact absurd (his _ (List.mem_cons_self ..)) (by decide)

theorem split_single (c : Char) : split (.single c) = [.single c] := by
  simp [split, Interval.single]

theorem onlyBangAndDash_parts : OnlyBangAndDash (parts is) ↔ OnlyBangAndDash is := by
  constructor
  · rintro ⟨hbang, hdash, honly⟩
    have hall : ∀ i ∈ is, i = .single '!' ∨ i = .single '-' := fun i hi =>
      (splits_split i).bang_or_dash fun j hj => honly j (mem_parts.mpr ⟨i, hi, hj⟩)
    have hmem {c : Char} (hc : .single c ∈ parts is) : .single c ∈ is := by
      obtain ⟨i, hi, hj⟩ := mem_parts.mp hc
      rcases hall i hi with rfl | rfl <;>
        rw [split_single, List.mem_singleton] at hj <;> exact hj ▸ hi
    exact ⟨hmem hbang, hmem hdash, hall⟩
  · rintro ⟨hbang, hdash, honly⟩
    have hmem {c : Char} (hc : .single c ∈ is) : .single c ∈ parts is :=
      mem_parts.mpr ⟨_, hc, by rw [split_single]; exact List.mem_cons_self ..⟩
    refine ⟨hmem hbang, hmem hdash, fun j hj => ?_⟩
    obtain ⟨i, hi, hj⟩ := mem_parts.mp hj
    rcases honly i hi with rfl | rfl <;> rw [split_single, List.mem_singleton] at hj
    · exact .inl hj
    · exact .inr hj

/-! ## The token -/

theorem reads_members {negated : Bool} (h : Placed (j :: js))
    (hbang : negated = true ∨ j.lo ≠ '!') :
    Wildcard.Reads ('[' :: (if negated then ['!'] else []) ++ (j :: js).flatMap memberText ++ [']'])
      (.oneOf negated (j :: js)) := by
  obtain ⟨cs, hcs, hbracket⟩ := h.text_cons
  rw [← List.singleton_append, List.append_assoc, List.append_assoc, List.singleton_append,
    ← List.append_assoc]
  refine Wildcard.reads_class fun rest => ?_
  rw [hcs, ← h.members_flatMap, hcs]
  cases negated with
  | true => exact Wildcard.class?_negated hbracket rest
  | false => exact Wildcard.class?_plain (hbang.resolve_left (by decide)) hbracket rest

/-- The text of a negated class is read back as its parts. -/
theorem reads_classText_true (h : is ≠ []) :
    Wildcard.Reads (classText true is) (.oneOf true (parts is)) := by
  have hplaced := placed_parts is
  rw [classText, arranged_true]
  cases heq : parts is with
  | nil => exact absurd heq (parts_ne_nil h)
  | cons j js =>
    rw [heq] at hplaced
    exact reads_members hplaced (.inl rfl)

/-- The text of a class that is not negated is read back as one token. -/
theorem reads_classText_false (h : is ≠ []) :
    ∃ t, t.Single ∧ Wildcard.Reads (classText false is) t ∧ ∀ c, t.takes c = true ↔
      c ≠ '/' ∧ if OnlyBangAndDash is then c ≠ '-' else Interval.anyHolds is c = true := by
  have harr := arranges_arranged h
  rw [classText]
  cases heq : arranged false is with
  | nil =>
    rw [heq] at harr
    cases harr with
    | bangs hbangs =>
      refine ⟨.literal '!', ⟨by simp, by simp⟩,
        Wildcard.reads_literal (by decide) (by decide) (by decide), fun c => ?_⟩
      have honly : ¬ OnlyBangAndDash (parts is) := fun ⟨_, hdash, _⟩ => by cases hbangs _ hdash
      have hbang : Interval.anyHolds (parts is) c = true ↔ c = '!' := by
        obtain ⟨i, hi⟩ := List.exists_mem_of_ne_nil _ (parts_ne_nil h)
        simp only [Interval.anyHolds, List.any_eq_true]
        constructor
        · rintro ⟨j, hj, hc⟩
          rwa [hbangs j hj, holds_single] at hc
        · intro hc
          exact ⟨i, hi, by rw [hbangs i hi, holds_single]; exact hc⟩
      rw [if_neg (mt onlyBangAndDash_parts.mpr honly), ← anyHolds_parts, hbang]
      constructor
      · intro hc
        obtain rfl := eq_of_beq hc
        exact ⟨by decide, rfl⟩
      · rintro ⟨-, rfl⟩
        rfl
  | cons j js =>
    rw [heq] at harr
    cases harr with
    | bangAndDash honly =>
      refine ⟨.oneOf true [.single '-'], Wildcard.single_oneOf _ _, ?_, fun c => ?_⟩
      · have hclass (rest : List Char) : Wildcard.class? (['!', '-'] ++ ']' :: rest) =
            some (.oneOf true [.single '-'], rest) := Wildcard.class?_negated List.not_mem_nil rest
        exact Wildcard.reads_class hclass
      · rw [if_pos (onlyBangAndDash_parts.mp honly)]
        rw [Wildcard.takes_except, anyHolds_single]
    | led honly hbang hplaced hchars =>
      refine ⟨.oneOf false (j :: js), Wildcard.single_oneOf _ _, reads_members hplaced (.inr hbang),
        fun c => ?_⟩
      rw [if_neg (mt onlyBangAndDash_parts.mpr honly), ← anyHolds_parts, ← hchars]
      exact Wildcard.takes_within

/-- The text of a class is read back as one token, which takes no `/`. -/
theorem reads_classText (negated : Bool) (h : is ≠ []) :
    ∃ t, t.Single ∧ Wildcard.Reads (classText negated is) t ∧ ∀ c, t.takes c = true → c ≠ '/' := by
  cases negated with
  | true =>
    refine ⟨_, Wildcard.single_oneOf _ _, reads_classText_true h, fun c hc => ?_⟩
    exact (Wildcard.takes_except.mp hc).1
  | false =>
    obtain ⟨t, ht, hreads, htakes⟩ := reads_classText_false h
    exact ⟨t, ht, hreads, fun c hc => ((htakes c).mp hc).1⟩

/-- What the text of a class takes that is not negated. -/
theorem accepts_classText (h : is ≠ []) (c : Char) :
    Wildcard.accepts (classText false is) c = true ↔
      c ≠ '/' ∧ if OnlyBangAndDash is then c ≠ '-' else Interval.anyHolds is c = true := by
  obtain ⟨t, ht, hreads, htakes⟩ := reads_classText_false h
  rw [hreads.accepts ht, htakes]

/-- **What a class takes.** The text written for a class that is not negated takes the characters
of the members, other than `/`, exactly if the members are not `!` and `-` alone. Of those two it
makes a negated class. -/
theorem class_takes_members {text : List Char} (h : ElementText text (.oneOf false is)) :
    ∃ emitted, wildcardText? text = some emitted ∧
      ((∀ c, Wildcard.accepts emitted c = true ↔ c ≠ '/' ∧ ∃ i ∈ is, i.lo ≤ c ∧ c ≤ i.hi) ↔
        ¬ OnlyBangAndDash is) ∧
      (OnlyBangAndDash is → ∀ c, Wildcard.accepts emitted c = true ↔ c ≠ '/' ∧ c ≠ '-') := by
  have hne : is ≠ [] := by
    cases h with
    | oneOf _ hne _ => exact hne
  have hread : wildcardText? text = some (classText false is) := by
    have := h.elements? []
    rw [List.append_nil, elements?] at this
    rw [wildcardText?, this]
    exact congrArg some (List.append_nil _)
  refine ⟨_, hread, ⟨fun hall honly => ?_, fun honly c => ?_⟩, fun honly c => ?_⟩
  · -- The `-` is a member, but not taken.
    have hdash := (hall '-').mpr ⟨by decide, .single '-', honly.2.1, by decide, by decide⟩
    rw [accepts_classText hne, if_pos honly] at hdash
    exact hdash.2 rfl
  · rw [accepts_classText hne, if_neg honly, Interval.anyHolds_iff]
  · rw [accepts_classText hne, if_pos honly]

/-- The class `[!+-\]\-]`, with a `!` in front, a range up to `]` and a `-` at the end. -/
theorem mixed_class_takes_members : ∃ emitted,
    wildcardText? ['[', '!', '+', '-', '\\', ']', '\\', '-', ']'] = some emitted ∧
      ∀ c, Wildcard.accepts emitted c = true ↔
        c ≠ '/' ∧ ∃ i ∈ [Interval.single '!', ⟨'+', ']'⟩, .single '-'], i.lo ≤ c ∧ c ≤ i.hi := by
  have hbang : AtomText ['!'] '!' := .plain (by decide) (by decide) (by decide)
  have hplus : AtomText ['+'] '+' := .plain (by decide) (by decide) (by decide)
  have hmembers := MembersText.cons (.single hbang)
    (.cons (.range hplus (.escaped (c := ']'))) (.cons (.single (.escaped (c := '-'))) .nil))
  have hclass := ElementText.oneOf hmembers (by simp) (by simp)
  obtain ⟨emitted, hread, htakes, -⟩ := class_takes_members hclass
  exact ⟨emitted, hread, htakes.mpr (by decide)⟩

/-- The class `[!\-]` is written `[!-]`, which takes an `x` and does not take the `-`. -/
theorem bang_and_dash_negated :
    ElementText ['[', '!', '\\', '-', ']'] (.oneOf false [.single '!', .single '-']) ∧
    wildcardText? ['[', '!', '\\', '-', ']'] = some ['[', '!', '-', ']'] ∧
    Wildcard.accepts ['[', '!', '-', ']'] 'x' = true ∧
    Wildcard.accepts ['[', '!', '-', ']'] '-' = false ∧
    ¬ ∀ c, Wildcard.accepts ['[', '!', '-', ']'] c = true ↔
      c ≠ '/' ∧ ∃ i ∈ [Interval.single '!', .single '-'], i.lo ≤ c ∧ c ≤ i.hi := by
  have hbang : AtomText ['!'] '!' := .plain (by decide) (by decide) (by decide)
  have hmembers := MembersText.cons (.single hbang) (.cons (.single (.escaped (c := '-'))) .nil)
  have hdash : Wildcard.accepts ['[', '!', '-', ']'] '-' = false := by decide +kernel
  refine ⟨.oneOf hmembers (by simp) (by simp), by decide +kernel, by decide +kernel, hdash, ?_⟩
  intro hall
  rw [(hall '-').mpr ⟨by decide, .single '-', by simp, by decide, by decide⟩] at hdash
  cases hdash

/-! ## Negated classes -/

/-- An element is written as it is read. -/
theorem ElementText.wildcardText? {text : List Char} {e : Element} (h : ElementText text e) :
    wildcardText? text = some e.text := by
  have hread : Shell.elements? text = some [e] := by
    have := h.elements? []
    rw [List.append_nil, Shell.elements?] at this
    exact this
  rw [Shell.wildcardText?, hread]
  exact congrArg some (List.append_nil _)

/-- **What a negated class takes.** The text written for it takes the characters outside the
members, other than `/`. No member is lost behind the `!` that negates: it stands before all of
them, and a `!` among them is a member like any other. -/
theorem negated_class_takes_others {text : List Char} (h : ElementText text (.oneOf true is)) :
    ∃ emitted, wildcardText? text = some emitted ∧
      ∀ c, Wildcard.accepts emitted c = true ↔ c ≠ '/' ∧ ¬ ∃ i ∈ is, i.lo ≤ c ∧ c ≤ i.hi := by
  have hne : is ≠ [] := by
    cases h with
    | noneOf _ hne => exact hne
  refine ⟨classText true is, h.wildcardText?, fun c => ?_⟩
  rw [(reads_classText_true hne).accepts (Wildcard.single_oneOf _ _), Wildcard.takes_except,
    anyHolds_parts, Interval.anyHolds_iff]

/-- The class `[^!+-\]^\-z-\]!]`: a `!` in front and again at the end, a range up to `]`, a `^`, a
`-` and a range that is empty. -/
theorem negated_mixed_class_takes_others :
    let is := [Interval.single '!', ⟨'+', ']'⟩, .single '^', .single '-', ⟨'z', ']'⟩, .single '!']
    ElementText "[^!+-\\]^\\-z-\\]!]".toList (.oneOf true is) ∧
      ∃ emitted, wildcardText? "[^!+-\\]^\\-z-\\]!]".toList = some emitted ∧
        ∀ c, Wildcard.accepts emitted c = true ↔ c ≠ '/' ∧ ¬ ∃ i ∈ is, i.lo ≤ c ∧ c ≤ i.hi := by
  intro is
  have hbang : AtomText ['!'] '!' := .plain (by decide) (by decide) (by decide)
  have hplus : AtomText ['+'] '+' := .plain (by decide) (by decide) (by decide)
  have hcaret : AtomText ['^'] '^' := .plain (by decide) (by decide) (by decide)
  have hz : AtomText ['z'] 'z' := .plain (by decide) (by decide) (by decide)
  have hmembers := MembersText.cons (.single hbang)
    (.cons (.range hplus (.escaped (c := ']'))) (.cons (.single hcaret)
      (.cons (.single (.escaped (c := '-'))) (.cons (.range hz (.escaped (c := ']')))
        (.cons (.single hbang) .nil)))))
  have hclass : ElementText "[^!+-\\]^\\-z-\\]!]".toList (.oneOf true is) :=
    .noneOf hmembers (by simp)
  exact ⟨hclass, negated_class_takes_others hclass⟩

end Shell
end FileWarden
