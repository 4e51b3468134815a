import FileWarden.Policy
import FileWarden.Proofs.Pattern.Grammar
import Mathlib.Data.List.Infix

/-!
# Malformed patterns

A pattern is never refused. One that the grammar does not allow has no wildcard text, and its own
text is then all that it matches by.

- **Well-formed texts** (`Shell.WellFormed`): a text that the grammar has a pattern for. Reading
  decides it (`Shell.wellFormed_iff_isSome`).
- **Carets** (`Shell.ElementText.negates`): a `^` right after the `[` of a class is no member, so a
  class needs another member behind it (`Shell.not_wellFormed_caret`).
- **Substrings** (`Text.contains_iff_infix`): a path holds a text that stands somewhere in it.
- **All of it** (`Pattern.wellFormed_or_substring`).
-/

namespace FileWarden

/-! ## Substrings -/

theorem Text.contains_iff_infix {part cs : List Char} :
    Text.contains part cs = true ↔ part <:+: cs := by
  induction cs with
  | nil => rw [Text.contains, List.isEmpty_iff, List.infix_nil]
  | cons c cs ih =>
    rw [Text.contains, Bool.or_eq_true, List.isPrefixOf_iff_prefix, ih, List.infix_cons_iff]

/-! ## Well-formed texts -/

namespace Shell

variable {cs text : List Char} {e : Element}

/-- A text that spells a pattern. -/
def WellFormed (cs : List Char) : Prop := ∃ es, PatternText cs es

theorem wellFormed_iff_isSome : WellFormed cs ↔ (elements? cs).isSome = true := by
  unfold WellFormed
  rw [Option.isSome_iff_exists]
  exact exists_congr fun es => elements?_iff.symm

instance : Decidable (WellFormed cs) := decidable_of_iff _ wellFormed_iff_isSome.symm

/-- A class is closed. -/
theorem ElementText.closed (h : ElementText ('[' :: text) e) : ∃ inner, text = inner ++ [']'] := by
  cases h with
  | plain _ hbracket => exact absurd rfl hbracket
  | @oneOf inner => exact ⟨inner, rfl⟩
  | @noneOf inner => exact ⟨'^' :: inner, rfl⟩

/-- A class whose `[` is followed by a `^` is negated, and its members come after the `^`. -/
theorem ElementText.negates (h : ElementText ('[' :: '^' :: text) e) :
    ∃ inner is, text = inner ++ [']'] ∧ MembersText inner is ∧ is ≠ [] ∧ e = .oneOf true is := by
  generalize hwhole : '[' :: '^' :: text = whole at h
  cases h with
  | star | any | plain | escaped => cases hwhole
  | @oneOf inner is hms hne hhead =>
    cases hms with
    | nil => exact absurd rfl hne
    | cons hm _ =>
      obtain ⟨d, ds, rfl, -⟩ := hm.head
      cases hwhole
      exact absurd rfl hhead
  | @noneOf inner is hms hne =>
    cases hwhole
    exact ⟨inner, is, rfl, hms, hne, rfl⟩

/-- A text that begins with `[` is well formed if a class ends somewhere in it, and what comes after
the class is well formed. -/
theorem wellFormed_class_iff : WellFormed ('[' :: cs) ↔
    ∃ body rest, cs = body ++ rest ∧ (∃ e, ElementText ('[' :: body) e) ∧ WellFormed rest := by
  constructor
  · rintro ⟨es, h⟩
    generalize hwhole : '[' :: cs = whole at h
    cases h with
    | nil => cases hwhole
    | @cons text rest e es he hes =>
      cases text with
      | nil => cases he
      | cons c body =>
        cases hwhole
        exact ⟨body, rest, rfl, ⟨e, he⟩, es, hes⟩
  · rintro ⟨body, rest, rfl, ⟨e, he⟩, es, hes⟩
    exact ⟨e :: es, .cons he hes⟩

/-- The class `[^]` is empty, so that no pattern begins with it. -/
theorem not_wellFormed_caret (rest : List Char) : ¬ WellFormed ('[' :: '^' :: ']' :: rest) := by
  rw [wellFormed_class_iff]
  rintro ⟨body, after, hbody, ⟨e, he⟩, -⟩
  cases body with
  | nil =>
    obtain ⟨inner, hinner⟩ := he.closed
    simp at hinner
  | cons c text =>
    obtain ⟨rfl, htext⟩ := List.cons_eq_cons.mp hbody
    obtain ⟨inner, is, rfl, hms, hne, -⟩ := he.negates
    cases hms with
    | nil => exact hne rfl
    | cons hm _ =>
      obtain ⟨d, ds, rfl, hd, -⟩ := hm.head
      exact hd (List.cons_eq_cons.mp htext).1.symm

end Shell

namespace Pattern

/-- A malformed pattern covers no path. -/
theorem covers_of_malformed {p : String} (h : ¬ Shell.WellFormed p.toList) (path : String) :
    (ofString p).covers path = false := by
  have hnone : Shell.elements? p.toList = none := by
    rwa [Shell.wellFormed_iff_isSome, Option.not_isSome_iff_eq_none] at h
  unfold covers ofString Shell.wildcardText?
  rw [hnone]
  rfl

/-- **A malformed pattern is a substring.** The wildcard text of a pattern exists exactly if the
pattern is well formed. A `^` right after the `[` of a class negates it and is no member, so that
`[^]` is malformed whatever comes after it. A malformed pattern covers nothing, and matches the
paths in which its text stands somewhere. -/
theorem wellFormed_or_substring (p : String) :
    ((Shell.wildcardText? p.toList).isSome = true ↔ Shell.WellFormed p.toList) ∧
    (∀ text e, Shell.ElementText ('[' :: '^' :: text) e → ∃ inner is, text = inner ++ [']'] ∧
      Shell.MembersText inner is ∧ is ≠ [] ∧ e = .oneOf true is) ∧
    (∀ rest, ¬ Shell.WellFormed ('[' :: '^' :: ']' :: rest)) ∧
    (¬ Shell.WellFormed p.toList → ∀ path : String, (ofString p).covers path = false ∧
      ((ofString p).matchesPath path = true ↔ p.toList <:+: path.toList)) := by
  refine ⟨?_, fun _ _ => Shell.ElementText.negates, Shell.not_wellFormed_caret, fun h path => ?_⟩
  · rw [Shell.wildcardText?, Option.isSome_map, Shell.wellFormed_iff_isSome]
  · have hcovers := covers_of_malformed h path
    refine ⟨hcovers, ?_⟩
    rw [matchesPath, hcovers, Bool.false_or]
    exact Text.contains_iff_infix

/-- A class in which a `-` makes no range is malformed. -/
example : ¬ Shell.WellFormed "/tmp/[a-]".toList := by decide +kernel

end Pattern
end FileWarden
