import FileWarden.Pattern.Shell

/-!
# The grammar of shell patterns

The grammar says which text spells what: an end of a class member (`AtomText`), a member
(`MemberText`), some members (`MembersText`), an element (`ElementText`), a pattern (`PatternText`).
Texts stand one after the other, so a rule is about concatenation only.

`elements?_iff`: reading a text gives the elements that it spells, and nothing if it spells none.
-/

namespace FileWarden
namespace Shell

variable {cs rest a m text : List Char} {c : Char} {i : Interval} {is : List Interval} {e : Element}
  {es : List Element}

/-! ## Rules -/

/-- A text for a character as an end of a class member. -/
inductive AtomText : List Char → Char → Prop where
  | plain {c : Char} : c ≠ '\\' → c ≠ ']' → c ≠ '-' → AtomText [c] c
  | escaped {c : Char} : AtomText ['\\', c] c

/-- A text for a class member. -/
inductive MemberText : List Char → Interval → Prop where
  | single {a : List Char} {c : Char} : AtomText a c → MemberText a (.single c)
  | range {a b : List Char} {lo hi : Char} :
    AtomText a lo → AtomText b hi → MemberText (a ++ '-' :: b) ⟨lo, hi⟩

/-- A text for class members. -/
inductive MembersText : List Char → List Interval → Prop where
  | nil : MembersText [] []
  | cons {m text : List Char} {i : Interval} {is : List Interval} :
    MemberText m i → MembersText text is → MembersText (m ++ text) (i :: is)

/-- A text for an element. A `^` right after the `[` of a class negates it. -/
inductive ElementText : List Char → Element → Prop where
  | star : ElementText ['*'] .star
  | any : ElementText ['?'] .any
  | plain {c : Char} : c ≠ '\\' → c ≠ '[' → c ≠ '*' → c ≠ '?' → ElementText [c] (.plain c)
  | escaped {c : Char} : ElementText ['\\', c] (.escaped c)
  | oneOf {text : List Char} {is : List Interval} : MembersText text is → is ≠ [] →
    text.head? ≠ some '^' → ElementText ('[' :: (text ++ [']'])) (.oneOf false is)
  | noneOf {text : List Char} {is : List Interval} : MembersText text is → is ≠ [] →
    ElementText ('[' :: '^' :: (text ++ [']'])) (.oneOf true is)

/-- A text for a pattern. -/
inductive PatternText : List Char → List Element → Prop where
  | nil : PatternText [] []
  | cons {text rest : List Char} {e : Element} {es : List Element} :
    ElementText text e → PatternText rest es → PatternText (text ++ rest) (e :: es)

/-! ## A text that spells something is read -/

theorem AtomText.atom? (h : AtomText a c) (rest : List Char) :
    atom? (a ++ rest) = some (c, rest) := by
  cases h with
  | plain h₁ h₂ h₃ =>
    unfold Shell.atom?
    split <;> simp_all
  | escaped => rfl

/-- An end of a member begins neither with `]` nor with `-`. -/
theorem AtomText.head (h : AtomText a c) :
    ∃ d ds, a = d :: ds ∧ d ≠ ']' ∧ d ≠ '-' := by
  cases h with
  | plain h₁ h₂ h₃ => exact ⟨_, [], rfl, h₂, h₃⟩
  | escaped => exact ⟨'\\', _, rfl, by decide, by decide⟩

theorem MemberText.head (h : MemberText m i) : ∃ d ds, m = d :: ds ∧ d ≠ ']' ∧ d ≠ '-' := by
  cases h with
  | single ha => exact ha.head
  | range ha hb =>
    obtain ⟨d, ds, rfl, hd⟩ := ha.head
    exact ⟨d, _, rfl, hd⟩

/-- What follows a member inside a class is no `-`. -/
theorem MembersText.head (h : MembersText text is) (rest : List Char) :
    ∃ d ds, text ++ ']' :: rest = d :: ds ∧ d ≠ '-' := by
  cases h with
  | nil => exact ⟨']', rest, rfl, by decide⟩
  | cons hm _ =>
    obtain ⟨d, ds, rfl, -, hd⟩ := hm.head
    exact ⟨d, _, rfl, hd⟩

theorem MemberText.member? (h : MemberText m i) {d : Char} {ds : List Char} (hd : d ≠ '-') :
    member? (m ++ d :: ds) = some (i, d :: ds) := by
  cases h with
  | single ha =>
    unfold Shell.member?
    rw [ha.atom?]
    split <;> simp_all
  | range ha hb =>
    unfold Shell.member?
    rw [List.append_assoc, ha.atom?]
    simp [hb.atom?]

/-- A member in front is read before the other members. -/
theorem members?_of_member? {nonempty : Bool} (h : member? cs = some (i, rest)) :
    members? nonempty cs = (members? true rest).map fun (is, rest) => (i :: is, rest) := by
  have hopen : ∀ ds, nonempty = true → cs = ']' :: ds → False := by
    rintro ds - rfl
    simp [Shell.member?, Shell.atom?] at h
  rw [members?.eq_2 _ _ hopen]
  split
  · rename_i h'
    rw [h] at h'
    cases h'
    rfl
  · rename_i h'
    rw [h] at h'
    cases h'

theorem MembersText.members? (h : MembersText text is) (rest : List Char) (nonempty : Bool)
    (hne : nonempty = true ∨ is ≠ []) :
    members? nonempty (text ++ ']' :: rest) = some (is, rest) := by
  induction h generalizing nonempty with
  | nil =>
    obtain rfl : nonempty = true := by simpa using hne
    unfold Shell.members?
    rfl
  | cons hm hms ih =>
    obtain ⟨d, ds, heq, hd⟩ := hms.head rest
    rw [List.append_assoc, heq, members?_of_member? (hm.member? hd), ← heq, ih true (.inl rfl)]
    rfl

theorem elements?_class (h : class? cs = some (e, rest)) :
    elements? ('[' :: cs) = (elements? rest).map (e :: ·) := by
  rw [elements?]
  split
  · rename_i h'
    rw [h] at h'
    cases h'
    rfl
  · rename_i h'
    rw [h] at h'
    cases h'

/-- A class is read up to its `]`. -/
theorem ElementText.class? (h : ElementText ('[' :: text) e) (rest : List Char) :
    class? (text ++ rest) = some (e, rest) := by
  cases h with
  | plain _ hbracket => exact absurd rfl hbracket
  | @oneOf text is hms hne hhead =>
    rw [List.append_assoc, List.singleton_append]
    unfold Shell.class?
    split
    · rename_i ds heq
      cases hms with
      | nil => exact absurd rfl hne
      | cons hm hms =>
        obtain ⟨d, ds, rfl, -⟩ := hm.head
        cases heq
        exact absurd rfl hhead
    · rw [hms.members? rest false (.inr hne)]
      rfl
  | @noneOf text is hms hne =>
    show (Shell.members? false (text ++ [']'] ++ rest)).map _ = _
    rw [List.append_assoc, List.singleton_append, hms.members? rest false (.inr hne)]
    rfl

theorem ElementText.elements? (h : ElementText text e) (rest : List Char) :
    elements? (text ++ rest) = (elements? rest).map (e :: ·) := by
  cases h with
  | star => exact Shell.elements?.eq_5 rest
  | any => exact Shell.elements?.eq_6 rest
  | plain h₁ h₂ h₃ h₄ =>
    rw [List.singleton_append, Shell.elements?] <;> simp_all
  | escaped => exact Shell.elements?.eq_2 _ rest
  | oneOf hms hne hhead => exact elements?_class ((ElementText.oneOf hms hne hhead).class? rest)
  | noneOf hms hne => exact elements?_class ((ElementText.noneOf hms hne).class? rest)

/-! ## A text that is read spells what is read -/

theorem exists_atomText (h : atom? cs = some (c, rest)) : ∃ a, AtomText a c ∧ cs = a ++ rest := by
  unfold atom? at h
  split at h
  · cases h
    exact ⟨_, .escaped, rfl⟩
  · cases h
  · cases h
  · cases h
  · rename_i d ds h₁ h₂ h₃ h₄
    cases h
    refine ⟨[c], .plain ?_ ?_ ?_, rfl⟩
    · rintro rfl
      cases rest with
      | nil => exact h₂ rfl rfl
      | cons d ds => exact h₁ d ds rfl rfl
    · rintro rfl
      exact h₃ rfl
    · rintro rfl
      exact h₄ rfl
  · cases h

theorem exists_memberText (h : member? cs = some (i, rest)) :
    ∃ m, MemberText m i ∧ cs = m ++ rest := by
  unfold member? at h
  split at h
  · rename_i lo ds hlo
    obtain ⟨a, ha, rfl⟩ := exists_atomText hlo
    simp only [Option.map_eq_some_iff, Prod.mk.injEq, Prod.exists] at h
    obtain ⟨hi, es, hhi, rfl, rfl⟩ := h
    obtain ⟨b, hb, rfl⟩ := exists_atomText hhi
    exact ⟨_, .range ha hb, by simp⟩
  · rename_i hc
    cases h
    obtain ⟨a, ha, rfl⟩ := exists_atomText hc
    exact ⟨a, .single ha, rfl⟩
  · cases h

theorem exists_membersText {nonempty : Bool} (h : members? nonempty cs = some (is, rest)) :
    ∃ text, MembersText text is ∧ cs = text ++ ']' :: rest ∧ (nonempty = true ∨ is ≠ []) := by
  fun_induction members? nonempty cs generalizing is rest with
  | case1 =>
    cases h
    exact ⟨[], .nil, rfl, .inl rfl⟩
  | case2 nonempty cs _ _ hfirst _ _ ih =>
    simp only [Option.map_eq_some_iff, Prod.mk.injEq, Prod.exists] at h
    obtain ⟨js, es, hms, rfl, rfl⟩ := h
    obtain ⟨text, htext, rfl, -⟩ := ih hms
    obtain ⟨m, hm, rfl⟩ := exists_memberText hfirst
    exact ⟨m ++ text, .cons hm htext, by simp, .inr (by simp)⟩
  | case3 => cases h

theorem exists_classText (h : class? cs = some (e, rest)) :
    ∃ text, ElementText ('[' :: text) e ∧ cs = text ++ rest := by
  unfold class? at h
  split at h
  · simp only [Option.map_eq_some_iff, Prod.mk.injEq, Prod.exists] at h
    obtain ⟨is, ds, hms, rfl, rfl⟩ := h
    obtain ⟨text, htext, rfl, hne⟩ := exists_membersText hms
    exact ⟨_, .noneOf htext (by simpa using hne), by simp⟩
  · rename_i hcaret
    simp only [Option.map_eq_some_iff, Prod.mk.injEq, Prod.exists] at h
    obtain ⟨is, ds, hms, rfl, rfl⟩ := h
    obtain ⟨text, htext, rfl, hne⟩ := exists_membersText hms
    refine ⟨_, .oneOf htext (by simpa using hne) fun hhead => ?_, by simp⟩
    cases text with
    | nil => cases hhead
    | cons d ds =>
      cases hhead
      exact hcaret _ rfl

theorem exists_patternText (h : elements? cs = some es) : PatternText cs es := by
  fun_induction elements? cs generalizing es with
  | case1 =>
    cases h
    exact .nil
  | case2 c cs ih =>
    obtain ⟨es, he, rfl⟩ := Option.map_eq_some_iff.mp h
    exact .cons .escaped (ih he)
  | case3 => cases h
  | case4 cs e rest hc _ ih =>
    obtain ⟨es, he, rfl⟩ := Option.map_eq_some_iff.mp h
    obtain ⟨text, htext, rfl⟩ := exists_classText hc
    exact .cons htext (ih he)
  | case5 => cases h
  | case6 cs ih =>
    obtain ⟨es, he, rfl⟩ := Option.map_eq_some_iff.mp h
    exact .cons .star (ih he)
  | case7 cs ih =>
    obtain ⟨es, he, rfl⟩ := Option.map_eq_some_iff.mp h
    exact .cons .any (ih he)
  | case8 c cs h₁ h₂ h₃ h₄ h₅ ih =>
    obtain ⟨es, he, rfl⟩ := Option.map_eq_some_iff.mp h
    have hslash : c ≠ '\\' := by
      rintro rfl
      cases cs with
      | nil => exact h₂ rfl rfl
      | cons d ds => exact h₁ d ds rfl rfl
    exact .cons (.plain hslash h₃ h₄ h₅) (ih he)

/-- Reading a text gives the elements that it spells. -/
theorem elements?_iff : elements? cs = some es ↔ PatternText cs es := by
  refine ⟨exists_patternText, fun h => ?_⟩
  induction h with
  | nil => rw [elements?]
  | cons he _ ih => rw [he.elements?, ih]; rfl

end Shell
end FileWarden
