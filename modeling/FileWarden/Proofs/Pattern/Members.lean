import FileWarden.Pattern.Shell

/-!
# Members of a class, split and put in order

- **Splitting** (`Splits`, `splits_split`): what becomes of an interval when `]` and `-` are split off.
  The characters stay the same (`Splits.anyHolds`), and the parts are tidy (`Tidy`): `]` and `-`
  stand only as singles, and an empty interval does not mention `!`.
- **Order** (`parts`): the parts by rank, with runs of equal ones cut to one. They are placed
  (`Placed`): a `]` stands first or nowhere, a `-` last or nowhere.
- **Reading back** (`Placed.members_flatMap`): placed members are read back as they are.
-/

namespace FileWarden
namespace Shell

variable {i j : Interval} {is js : List Interval} {c : Char}

theorem char_le_iff {c d : Char} : c ≤ d ↔ c.toNat ≤ d.toNat := by
  rw [Char.le_def, UInt32.le_iff_toNat_le]
  rfl

theorem char_lt_iff {c d : Char} : c < d ↔ c.toNat < d.toNat := by
  rw [Char.lt_def, UInt32.lt_iff_toNat_lt]
  rfl

theorem holds_single {c d : Char} : (Interval.single d).holds c = true ↔ c = d := by
  rw [Interval.holds_iff]
  constructor
  · rintro ⟨hlo, hhi⟩
    exact Char.le_antisymm hhi hlo
  · rintro rfl
    exact ⟨Char.le_refl c, Char.le_refl c⟩

theorem anyHolds_single {c d : Char} : Interval.anyHolds [.single d] c = true ↔ c = d := by
  rw [Interval.anyHolds, List.any_cons, List.any_nil, Bool.or_false, holds_single]

/-! ## Splitting -/

/-- An interval in which `]` and `-` stand only as singles, and `!` in no empty one. -/
structure Tidy (i : Interval) : Prop where
  bracket : i.lo = ']' ∨ i.hi = ']' → i = .single ']'
  dash : i.lo = '-' ∨ i.hi = '-' → i = .single '-'
  bang : i.hi < i.lo → i.lo ≠ '!' ∧ i.hi ≠ '!'

theorem tidy_single (c : Char) : Tidy (.single c) where
  bracket h := by simpa [Interval.single] using h
  dash h := by simpa [Interval.single] using h
  bang h := by simp [Interval.single] at h

theorem tidy_of_ends (hlo : i.lo ≠ ']' ∧ i.lo ≠ '-') (hhi : i.hi ≠ ']' ∧ i.hi ≠ '-')
    (hle : i.lo ≤ i.hi) : Tidy i where
  bracket h := by simp [hlo.1, hhi.1] at h
  dash h := by simp [hlo.2, hhi.2] at h
  bang h := by
    rw [char_le_iff] at hle
    rw [char_lt_iff] at h
    omega

/-- What becomes of an interval when `]` and `-` are split off. -/
inductive Splits : Interval → List Interval → Prop where
  | whole {i : Interval} : Tidy i → Splits i [i]
  | empty {lo hi : Char} : hi < lo → Splits ⟨lo, hi⟩ [⟨'b', 'a'⟩]
  | bracketLo {hi : Char} : ']' < hi → Splits ⟨']', hi⟩ [.single ']', ⟨'^', hi⟩]
  | bracketHi {lo : Char} : lo < ']' → lo ≠ '-' → Splits ⟨lo, ']'⟩ [.single ']', ⟨lo, '\\'⟩]
  | dashLo {hi : Char} : '-' < hi → hi ≠ ']' → Splits ⟨'-', hi⟩ [.single '-', ⟨'.', hi⟩]
  | dashHi {lo : Char} : lo < '-' → Splits ⟨lo, '-'⟩ [.single '-', ⟨lo, ','⟩]
  | both : Splits ⟨'-', ']'⟩ [.single ']', .single '-', ⟨'.', '\\'⟩]

theorem splits_split (i : Interval) : Splits i (split i) := by
  obtain ⟨lo, hi⟩ := i
  rcases Nat.lt_trichotomy hi.toNat lo.toNat with hlt | heq | hlt
  · have hrev : hi < lo := char_lt_iff.mpr hlt
    by_cases h : (lo = ']' ∨ lo = '-' ∨ lo = '!') ∨ (hi = ']' ∨ hi = '-' ∨ hi = '!')
    · have : split ⟨lo, hi⟩ = [⟨'b', 'a'⟩] := by
        simp only [split, hrev, if_true]
        rw [if_pos (by simpa [or_assoc] using h)]
      rw [this]
      exact .empty hrev
    · have : split ⟨lo, hi⟩ = [⟨lo, hi⟩] := by
        simp only [split, hrev, if_true]
        rw [if_neg (by simpa [or_assoc] using h)]
      rw [this]
      simp only [not_or] at h
      exact .whole ⟨by simp [h], by simp [h], by simp [h]⟩
  · obtain rfl := Char.toNat_inj.mp heq
    have : split ⟨hi, hi⟩ = [.single hi] := by simp [split, Interval.single]
    rw [this]
    exact .whole (tidy_single hi)
  -- An end that is split off leaves its neighbour, which is not past the other end.
  have hge : ¬ hi < lo := by rw [char_lt_iff]; omega
  have hne : lo ≠ hi := by rintro rfl; omega
  by_cases h₁ : lo = ']'
  · subst h₁
    have h₂ : hi ≠ '-' := by rintro rfl; simp at hlt
    have h₃ : '^' ≤ hi := by rw [char_le_iff]; exact hlt
    have : split ⟨']', hi⟩ = [.single ']', ⟨'^', hi⟩] := by
      simp [split, hge, hne, hne.symm, h₂, h₃]
    rw [this]
    exact .bracketLo (char_lt_iff.mpr hlt)
  by_cases h₂ : hi = ']'
  · subst h₂
    by_cases h₃ : lo = '-'
    · subst h₃
      exact .both
    have h₄ : lo ≤ '\\' := by rw [char_le_iff]; exact Nat.le_of_lt_succ hlt
    have : split ⟨lo, ']'⟩ = [.single ']', ⟨lo, '\\'⟩] := by simp [split, hge, hne, h₃, h₄]
    rw [this]
    exact .bracketHi (char_lt_iff.mpr hlt) h₃
  by_cases h₃ : lo = '-'
  · subst h₃
    have h₄ : '.' ≤ hi := by rw [char_le_iff]; exact hlt
    have : split ⟨'-', hi⟩ = [.single '-', ⟨'.', hi⟩] := by
      simp [split, hge, hne, hne.symm, h₂, h₄]
    rw [this]
    exact .dashLo (char_lt_iff.mpr hlt) h₂
  by_cases h₄ : hi = '-'
  · subst h₄
    have h₅ : lo ≤ ',' := by rw [char_le_iff]; exact Nat.le_of_lt_succ hlt
    have : split ⟨lo, '-'⟩ = [.single '-', ⟨lo, ','⟩] := by simp [split, hge, hne, h₁, h₅]
    rw [this]
    exact .dashHi (char_lt_iff.mpr hlt)
  have hle : lo ≤ hi := by rw [char_le_iff]; omega
  have : split ⟨lo, hi⟩ = [⟨lo, hi⟩] := by simp [split, hge, hne, h₁, h₂, h₃, h₄, hle]
  rw [this]
  exact .whole (tidy_of_ends ⟨h₁, h₃⟩ ⟨h₂, h₄⟩ hle)

/-- The first character of an interval can stand by itself. -/
theorem anyHolds_cut_lo {d lo hi : Char} (hnext : lo.toNat = d.toNat + 1) (hlt : d < hi) (c : Char) :
    Interval.anyHolds [.single d, ⟨lo, hi⟩] c = (⟨d, hi⟩ : Interval).holds c := by
  rw [Bool.eq_iff_iff, Interval.holds_iff, Interval.anyHolds_iff]
  simp only [List.mem_cons, List.not_mem_nil, or_false, exists_eq_or_imp, exists_eq_left,
    Interval.single, char_le_iff]
  rw [char_lt_iff] at hlt
  omega

/-- So can the last one. -/
theorem anyHolds_cut_hi {d lo hi : Char} (hnext : d.toNat = hi.toNat + 1) (hlt : lo < d) (c : Char) :
    Interval.anyHolds [.single d, ⟨lo, hi⟩] c = (⟨lo, d⟩ : Interval).holds c := by
  rw [Bool.eq_iff_iff, Interval.holds_iff, Interval.anyHolds_iff]
  simp only [List.mem_cons, List.not_mem_nil, or_false, exists_eq_or_imp, exists_eq_left,
    Interval.single, char_le_iff]
  rw [char_lt_iff] at hlt
  omega

/-- The parts hold the characters of the interval. -/
theorem Splits.anyHolds (h : Splits i is) (c : Char) : Interval.anyHolds is c = i.holds c := by
  cases h with
  | whole => exact Bool.or_false _
  | empty hlt =>
    rw [Bool.eq_iff_iff, Interval.holds_iff, Interval.anyHolds_iff]
    simp only [List.mem_singleton, exists_eq_left, char_le_iff]
    rw [char_lt_iff] at hlt
    simp only [Char.reduceToNat]
    omega
  | bracketLo hlt => exact anyHolds_cut_lo rfl hlt c
  | bracketHi hlt => exact anyHolds_cut_hi rfl hlt c
  | dashLo hlt => exact anyHolds_cut_lo rfl hlt c
  | dashHi hlt => exact anyHolds_cut_hi rfl hlt c
  | both =>
    have hdash : Interval.anyHolds [.single '-', ⟨'.', '\\'⟩] c = (⟨'-', '\\'⟩ : Interval).holds c :=
      anyHolds_cut_lo rfl (by decide) c
    have hbracket : Interval.anyHolds [.single ']', ⟨'-', '\\'⟩] c = (⟨'-', ']'⟩ : Interval).holds c :=
      anyHolds_cut_hi rfl (by decide) c
    rw [← hbracket]
    show (_ || Interval.anyHolds [.single '-', ⟨'.', '\\'⟩] c) = _
    rw [hdash, Interval.anyHolds, List.any_cons, List.any_cons, List.any_nil, Bool.or_false]

theorem Splits.ne_nil (h : Splits i is) : is ≠ [] := by
  cases h <;> simp

theorem Splits.tidy (h : Splits i is) (hj : j ∈ is) : Tidy j := by
  cases h with
  | whole hi =>
    obtain rfl := List.mem_singleton.mp hj
    exact hi
  | empty hlt =>
    obtain rfl := List.mem_singleton.mp hj
    exact ⟨by decide, by decide, by decide⟩
  | @bracketLo hi hlt =>
    simp only [List.mem_cons, List.not_mem_nil, or_false] at hj
    rcases hj with rfl | rfl
    · exact tidy_single _
    · refine tidy_of_ends (by simp) ⟨?_, ?_⟩ ?_
      · rintro rfl; simp at hlt
      · rintro rfl; simp at hlt
      · rw [char_lt_iff] at hlt; rw [char_le_iff]; exact hlt
  | @bracketHi lo hlt hne =>
    simp only [List.mem_cons, List.not_mem_nil, or_false] at hj
    rcases hj with rfl | rfl
    · exact tidy_single _
    · refine tidy_of_ends ⟨?_, hne⟩ (by simp) ?_
      · rintro rfl; simp at hlt
      · rw [char_lt_iff] at hlt; rw [char_le_iff]; exact Nat.le_of_lt_succ hlt
  | @dashLo hi hlt hne =>
    simp only [List.mem_cons, List.not_mem_nil, or_false] at hj
    rcases hj with rfl | rfl
    · exact tidy_single _
    · refine tidy_of_ends (by simp) ⟨hne, ?_⟩ ?_
      · rintro rfl; simp at hlt
      · rw [char_lt_iff] at hlt; rw [char_le_iff]; exact hlt
  | @dashHi lo hlt =>
    simp only [List.mem_cons, List.not_mem_nil, or_false] at hj
    rcases hj with rfl | rfl
    · exact tidy_single _
    · refine tidy_of_ends ⟨?_, ?_⟩ (by simp) ?_
      · rintro rfl; simp at hlt
      · rintro rfl; simp at hlt
      · rw [char_lt_iff] at hlt; rw [char_le_iff]; exact Nat.le_of_lt_succ hlt
  | both =>
    simp only [List.mem_cons, List.not_mem_nil, or_false] at hj
    rcases hj with rfl | rfl | rfl
    · exact tidy_single _
    · exact tidy_single _
    · exact ⟨by decide, by decide, by decide⟩

/-! ## Order -/

theorem rank_le (i : Interval) : rank i ≤ 3 := by
  unfold rank
  split
  · decide
  · split
    · decide
    · split <;> decide

theorem mem_byRank : i ∈ byRank is ↔ i ∈ is := by
  have hrank : rank i ∈ [0, 1, 2, 3] := by
    have := rank_le i
    simp only [List.mem_cons, List.not_mem_nil, or_false]
    omega
  simp only [byRank, List.mem_flatMap, List.mem_filter, decide_eq_true_eq]
  constructor
  · rintro ⟨_, -, hi, -⟩
    exact hi
  · intro hi
    exact ⟨rank i, hrank, hi, rfl⟩

theorem pairwise_byRank (is : List Interval) : (byRank is).Pairwise (rank · ≤ rank ·) := by
  rw [byRank, List.pairwise_flatMap]
  constructor
  · intro r _
    refine List.pairwise_of_forall_mem_list fun i hi j hj => ?_
    simp only [List.mem_filter, decide_eq_true_eq] at hi hj
    omega
  · refine List.Pairwise.imp (R := (· ≤ ·)) (fun {r s} hrs i hi j hj => ?_) (by decide)
    simp only [List.mem_filter, decide_eq_true_eq] at hi hj
    omega

theorem mem_squeeze : i ∈ squeeze is ↔ i ∈ is := by
  fun_induction squeeze is with
  | case1 j is ih => simp [ih]
  | case2 j k is _ ih => simp [ih]
  | case3 is _ => rfl

theorem squeeze_sublist (is : List Interval) : (squeeze is).Sublist is := by
  fun_induction squeeze is with
  | case1 i is ih => exact ih.cons i
  | case2 i j is _ ih => exact ih.cons_cons i
  | case3 is _ => exact List.Sublist.refl is

/-- A tidy interval that begins with `]` is that character. -/
theorem Tidy.eq_of_rank_zero (h : Tidy i) (hr : rank i = 0) : i = .single ']' := by
  refine h.bracket (.inl ?_)
  unfold rank at hr
  split at hr
  · assumption
  · split at hr
    · cases hr
    · split at hr <;> cases hr

theorem eq_of_rank_three (hr : rank i = 3) : i = .single '-' := by
  unfold rank at hr
  split at hr
  · cases hr
  · split at hr
    · assumption
    · split at hr <;> cases hr

/-- Tidy members, of which only the first may be `]` and only the last may be `-`. -/
structure Placed (is : List Interval) : Prop where
  tidy : ∀ i ∈ is, Tidy i
  edges : is.Pairwise fun i j => i.lo ≠ '-' ∧ j.lo ≠ ']'

theorem Placed.tail (h : Placed (i :: is)) : Placed is :=
  ⟨fun j hj => h.tidy j (List.mem_cons_of_mem i hj), (List.pairwise_cons.mp h.edges).2⟩

theorem Placed.ne_bracket (h : Placed (i :: is)) (hj : j ∈ is) : j.lo ≠ ']' :=
  ((List.pairwise_cons.mp h.edges).1 j hj).2

/-- A `-` is the last member. -/
theorem Placed.nil_of_dash (h : Placed (i :: is)) (hdash : i.lo = '-') : is = [] :=
  List.eq_nil_iff_forall_not_mem.mpr fun j hj => ((List.pairwise_cons.mp h.edges).1 j hj).1 hdash

theorem Placed.sublist (h : Placed is) (hs : js.Sublist is) : Placed js :=
  ⟨fun j hj => h.tidy j (hs.subset hj), h.edges.sublist hs⟩

/-- In members by rank, equal neighbours are all that keeps `]` and `-` from the edges. -/
theorem placed_squeeze (htidy : ∀ i ∈ is, Tidy i) (hrank : is.Pairwise (rank · ≤ rank ·)) :
    Placed (squeeze is) := by
  fun_induction squeeze is with
  | case1 i is ih =>
    exact ih (fun j hj => htidy j (List.mem_cons_of_mem i hj)) (List.pairwise_cons.mp hrank).2
  | case2 i j is hne ih =>
    obtain ⟨hi, hrest⟩ := List.pairwise_cons.mp hrank
    have hplaced := ih (fun k hk => htidy k (List.mem_cons_of_mem i hk)) hrest
    have hij : rank i ≤ rank j := hi j (List.mem_cons_self ..)
    refine ⟨?_, List.pairwise_cons.mpr ⟨fun k hk => ⟨?_, ?_⟩, hplaced.edges⟩⟩
    · intro k hk
      rcases List.mem_cons.mp hk with rfl | hk
      · exact htidy k (List.mem_cons_self ..)
      · exact hplaced.tidy k hk
    · intro hdash
      obtain rfl := (htidy i (List.mem_cons_self ..)).dash (.inl hdash)
      have hj := rank_le j
      have hthree : rank (.single '-') = 3 := by decide
      exact hne (eq_of_rank_three (by omega)).symm
    · intro hbracket
      rw [mem_squeeze] at hk
      have hzero : rank k = 0 := by rw [rank, if_pos hbracket]
      have hjk : rank j ≤ rank k := by
        rcases List.mem_cons.mp hk with rfl | hk
        · exact Nat.le_refl _
        · exact (List.pairwise_cons.mp hrest).1 k hk
      have hi0 := (htidy i (List.mem_cons_self ..)).eq_of_rank_zero (by omega)
      have hj0 := (htidy j (by simp)).eq_of_rank_zero (by omega)
      exact hne (hi0.trans hj0.symm)
  | case3 is hshort =>
    match is with
    | [] => exact ⟨htidy, .nil⟩
    | [i] => exact ⟨htidy, List.pairwise_singleton ..⟩
    | i :: j :: is => exact absurd rfl (hshort i j is)

theorem mem_parts : j ∈ parts is ↔ ∃ i ∈ is, j ∈ split i := by
  rw [parts, mem_squeeze, mem_byRank, List.mem_flatMap]

theorem placed_parts (is : List Interval) : Placed (parts is) := by
  refine placed_squeeze (fun j hj => ?_) (pairwise_byRank _)
  rw [mem_byRank, List.mem_flatMap] at hj
  obtain ⟨i, -, hj⟩ := hj
  exact (splits_split i).tidy hj

theorem pairwise_parts (is : List Interval) : (parts is).Pairwise (rank · ≤ rank ·) :=
  (pairwise_byRank _).sublist (squeeze_sublist _)

/-- The parts hold the characters of the members. -/
theorem anyHolds_parts (is : List Interval) (c : Char) :
    Interval.anyHolds (parts is) c = Interval.anyHolds is c := by
  have hsplit (i : Interval) : (∃ j ∈ split i, j.holds c = true) ↔ i.holds c = true := by
    rw [← (splits_split i).anyHolds c]
    simp [Interval.anyHolds]
  rw [Bool.eq_iff_iff]
  simp only [Interval.anyHolds, List.any_eq_true, mem_parts]
  constructor
  · rintro ⟨j, ⟨i, hi, hj⟩, hc⟩
    exact ⟨i, hi, (hsplit i).mp ⟨j, hj, hc⟩⟩
  · rintro ⟨i, hi, hc⟩
    obtain ⟨j, hj, hc⟩ := (hsplit i).mpr hc
    exact ⟨j, ⟨i, hi, hj⟩, hc⟩

theorem parts_ne_nil (h : is ≠ []) : parts is ≠ [] := by
  obtain ⟨i, hi⟩ := List.exists_mem_of_ne_nil is h
  obtain ⟨j, hj⟩ := List.exists_mem_of_ne_nil _ (splits_split i).ne_nil
  exact List.ne_nil_of_mem (mem_parts.mpr ⟨i, hi, hj⟩)

/-! ## Reading back -/

theorem members_single {cs : List Char} (h : ∀ d ds, cs ≠ '-' :: d :: ds) :
    Wildcard.members (c :: cs) = .single c :: Wildcard.members cs := by
  rw [Wildcard.members]
  exact h

/-- The text of placed members begins with a `-` only if that is all of it. -/
theorem Placed.not_range (h : Placed is) (d : Char) (ds : List Char) :
    is.flatMap memberText ≠ '-' :: d :: ds := by
  intro heq
  cases is with
  | nil => cases heq
  | cons i is =>
    have hdash : i.lo = '-' := by
      rw [List.flatMap_cons, memberText] at heq
      split at heq <;> exact (List.cons.inj heq).1
    obtain rfl := h.nil_of_dash hdash
    obtain rfl := (h.tidy i (List.mem_cons_self ..)).dash (.inl hdash)
    simp [memberText, Interval.single] at heq

/-- Placed members are read back as they are. -/
theorem Placed.members_flatMap (h : Placed is) :
    Wildcard.members (is.flatMap memberText) = is := by
  induction is with
  | nil => rfl
  | cons i is ih =>
    rw [List.flatMap_cons, memberText]
    split
    · rename_i hi
      have hsingle : Interval.single i.lo = i := by
        obtain ⟨lo, hi⟩ := i
        cases hi
        rfl
      rw [List.singleton_append, members_single h.tail.not_range, ih h.tail, hsingle]
    · show Wildcard.members (i.lo :: '-' :: i.hi :: is.flatMap memberText) = _
      rw [Wildcard.members, ih h.tail]

theorem Tidy.not_mem_memberText (h : Tidy i) (hlo : i.lo ≠ ']') : ']' ∉ memberText i := by
  have hhi : i.hi ≠ ']' := by
    intro hhi
    obtain rfl := h.bracket (.inr hhi)
    exact hlo rfl
  unfold memberText
  split <;> simp [hlo.symm, hhi.symm]

/-- The text of placed members begins with the first of them, and holds no `]` after that. -/
theorem Placed.text_cons (h : Placed (i :: is)) :
    ∃ cs, (i :: is).flatMap memberText = i.lo :: cs ∧ ']' ∉ cs := by
  have hrest : ']' ∉ is.flatMap memberText := by
    intro hmem
    obtain ⟨j, hj, hmem⟩ := List.mem_flatMap.mp hmem
    exact (h.tidy j (List.mem_cons_of_mem i hj)).not_mem_memberText (h.ne_bracket hj) hmem
  rw [List.flatMap_cons, memberText]
  split
  · exact ⟨_, rfl, hrest⟩
  · rename_i hne
    refine ⟨_, rfl, ?_⟩
    have hhi : ']' ≠ i.hi := by
      intro hhi
      obtain rfl := (h.tidy i (List.mem_cons_self ..)).bracket (.inr hhi.symm)
      exact hne rfl
    simp [hhi, hrest]

end Shell
end FileWarden
