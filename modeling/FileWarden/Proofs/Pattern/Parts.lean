import FileWarden.Proofs.Pattern.Class

/-!
# Members split as they are read

A class can be read in one go: each member is split when it is read, and its parts go behind those so
far. Then only the parts tell whether any member was read.

- **Parts of a member** (`Splits.length_le`): one to three. There is always one, so there are parts
  exactly if a member was read (`flatMap_split_eq_nil_iff`).
- **Reading** (`splitMembers?_eq`): the parts are those of the members, one after the other, and a
  `]` closes a class of which a member was read.
- **Tidy parts** (`split_tidies`): all of this, with the characters of the parts and their ends.
-/

namespace FileWarden
namespace Shell

variable {i j : Interval} {is js ps : List Interval} {cs rest : List Char}

/-! ## Parts of a member -/

theorem Splits.length_le (h : Splits i is) : is.length ≤ 3 := by
  cases h <;> simp

theorem Splits.length_pos (h : Splits i is) : 1 ≤ is.length := List.length_pos_iff.mpr h.ne_nil

/-- In a part of more than one character, neither end is `]` or `-`. -/
theorem Tidy.ends_of_ne (h : Tidy j) (hne : j.lo ≠ j.hi) :
    j.lo ∉ [']', '-'] ∧ j.hi ∉ [']', '-'] := by
  have hsingle (c : Char) : j ≠ .single c := by
    rintro rfl
    exact hne rfl
  simp only [List.mem_cons, List.not_mem_nil, or_false, not_or]
  exact ⟨⟨fun h' => hsingle _ (h.bracket (.inl h')), fun h' => hsingle _ (h.dash (.inl h'))⟩,
    ⟨fun h' => hsingle _ (h.bracket (.inr h')), fun h' => hsingle _ (h.dash (.inr h'))⟩⟩

/-- Each member has parts. -/
theorem flatMap_split_eq_nil_iff : is.flatMap split = [] ↔ is = [] := by
  rw [List.flatMap_eq_nil_iff]
  refine ⟨fun h => List.eq_nil_iff_forall_not_mem.mpr fun i hi => ?_, fun h => by simp [h]⟩
  exact (splits_split i).ne_nil (h i hi)

/-! ## Reading -/

/-- Reads the members of a class and splits each when it is read; `ps` are the parts so far. A `]`
closes the class if there are any. -/
def splitMembers? (ps : List Interval) (cs : List Char) : Option (List Interval × List Char) :=
  match ps, cs with
  | _ :: _, ']' :: rest => some (ps, rest)
  | _, cs =>
    match h : member? cs with
    | some (i, rest) =>
      have := length_of_member? h
      splitMembers? (ps ++ split i) rest
    | none => none
  termination_by cs.length

theorem members?_of_none {nonempty : Bool} (hopen : ∀ ds, nonempty = true → cs = ']' :: ds → False)
    (h : member? cs = none) : members? nonempty cs = none := by
  rw [members?.eq_2 _ _ hopen]
  split
  · rename_i h'
    rw [h] at h'
    cases h'
  · rfl

/-- The parts of all members are read, behind those so far. -/
theorem splitMembers?_eq (ps : List Interval) (cs : List Char) :
    splitMembers? ps cs = (members? (!ps.isEmpty) cs).map
      fun (is, rest) => (ps ++ is.flatMap split, rest) := by
  fun_induction splitMembers? ps cs with
  | case1 rest p ps =>
    rw [List.isEmpty_cons, Bool.not_false, members?.eq_1]
    simp
  | case2 ps cs i rest hmember _ hopen ih =>
    have hparts : (ps ++ split i).isEmpty = false := by
      simp [(splits_split i).ne_nil]
    rw [ih, hparts, members?_of_member? hmember, Option.map_map]
    simp [Function.comp_def]
  | case3 ps cs hmember hopen =>
    rw [members?_of_none (fun ds hps hcs => ?_) hmember, Option.map_none]
    cases ps with
    | nil => cases hps
    | cons p ps => exact hopen p ps ds rfl hcs

/-- A class that is read has members. -/
theorem ne_nil_of_members? (h : members? false cs = some (is, rest)) : is ≠ [] := by
  obtain ⟨-, -, -, hne⟩ := exists_membersText h
  exact hne.resolve_left Bool.false_ne_true

/-! ## Tidy parts -/

theorem squeeze_byRank_eq_nil_iff : squeeze (byRank ps) = [] ↔ ps = [] := by
  simp only [List.eq_nil_iff_forall_not_mem, mem_squeeze, mem_byRank]

theorem tidy_of_mem_flatMap (hj : j ∈ is.flatMap split) : Tidy j := by
  obtain ⟨i, -, hj⟩ := List.mem_flatMap.mp hj
  exact (splits_split i).tidy hj

/-- Putting the parts in order makes no new `]` and no new `-`. -/
theorem tidy_arranged (negated : Bool) (hne : is ≠ []) (hj : j ∈ arranged negated is) : Tidy j := by
  cases negated with
  | true => exact (placed_parts is).tidy j hj
  | false =>
    have harr := arranges_arranged hne
    revert harr hj
    generalize arranged false is = ks
    intro hj harr
    cases harr with
    | bangs => cases hj
    | bangAndDash =>
      simp only [List.mem_cons, List.not_mem_nil, or_false] at hj
      rcases hj with rfl | rfl <;> exact tidy_single _
    | led _ _ hplaced _ => exact hplaced.tidy j hj

/-- **Splitting a range.** It gives one to three parts with the same characters, in which `]` and
`-` are singles and no empty part has `!`. So a class may be read with its parts alone: there are
parts as soon as a member was read, and a first one when they are in order. -/
theorem split_tidies :
    (∀ i : Interval, (1 ≤ (split i).length ∧ (split i).length ≤ 3) ∧
      (∀ c, i.lo ≤ c ∧ c ≤ i.hi ↔ ∃ j ∈ split i, j.lo ≤ c ∧ c ≤ j.hi) ∧
      ∀ j ∈ split i, (j.lo ≠ j.hi → j.lo ∉ [']', '-'] ∧ j.hi ∉ [']', '-']) ∧
        (j.hi < j.lo → j.lo ≠ '!' ∧ j.hi ≠ '!')) ∧
    (∀ before cs, (before.flatMap split = [] ↔ before = []) ∧
      splitMembers? (before.flatMap split) cs = (members? (!before.isEmpty) cs).map
        fun (is, rest) => ((before ++ is).flatMap split, rest)) ∧
    ∀ cs is rest, members? false cs = some (is, rest) →
      splitMembers? [] cs = some (is.flatMap split, rest) ∧ is.flatMap split ≠ [] ∧
      (∃ first others, squeeze (byRank (is.flatMap split)) = first :: others) ∧
      ∀ negated, ∀ j ∈ is.flatMap split ++ arranged negated is,
        j.lo ∈ [']', '-'] ∨ j.hi ∈ [']', '-'] → j.lo = j.hi := by
  refine ⟨fun i => ?_, fun before cs => ⟨flatMap_split_eq_nil_iff, ?_⟩, fun cs is rest hread => ?_⟩
  · have hsplits := splits_split i
    refine ⟨⟨hsplits.length_pos, hsplits.length_le⟩, fun c => ?_, fun j hj => ?_⟩
    · rw [← Interval.holds_iff, ← hsplits.anyHolds c, Interval.anyHolds_iff]
    · have htidy := hsplits.tidy hj
      exact ⟨htidy.ends_of_ne, htidy.bang⟩
  · have hempty : (before.flatMap split).isEmpty = before.isEmpty := by
      rw [Bool.eq_iff_iff, List.isEmpty_iff, List.isEmpty_iff, flatMap_split_eq_nil_iff]
    simp only [splitMembers?_eq, hempty, List.flatMap_append]
  · have hne := ne_nil_of_members? hread
    have hparts : is.flatMap split ≠ [] := mt flatMap_split_eq_nil_iff.mp hne
    refine ⟨?_, hparts, ?_, fun negated j hj => ?_⟩
    · rw [splitMembers?_eq, List.isEmpty_nil, Bool.not_true, hread]
      rfl
    · exact List.exists_cons_of_ne_nil (mt squeeze_byRank_eq_nil_iff.mp hparts)
    · have htidy : Tidy j := by
        rcases List.mem_append.mp hj with hj | hj
        · exact tidy_of_mem_flatMap hj
        · exact tidy_arranged negated hne hj
      refine fun hend => Decidable.byContradiction fun hdiff => ?_
      obtain ⟨hlo, hhi⟩ := htidy.ends_of_ne hdiff
      exact hend.elim hlo hhi

/-- Both ends of a range may be split off. -/
example : split ⟨'-', ']'⟩ = [.single ']', .single '-', ⟨'.', '\\'⟩] := by decide

end Shell
end FileWarden
