import FileWarden.Pattern.Wildcard
import FileWarden.Proofs.Text.Blank

/-!
# Reading wildcard texts and covering paths

- **Classes** (`class?_negated`, `class?_plain`): a class ends at the first `]` after its first member.
- **One token at a time** (`Reads`): a text that is read as one token wherever it stands.
- **Covering** (`covers_star_iff`, `covers_takes_iff`): the first token takes a piece of the path and
  the others take the rest. `verdicts_cons` is what makes this hold: the verdicts on a text go on
  with the verdicts on its tail.
- **Whole components** (`covers_components_iff`): what a `**` takes before other tokens.
- **One character** (`accepts`): whether a text covers a path of one character.
-/

namespace FileWarden
namespace Wildcard

variable {t : Token} {ts : List Token} {is : List Interval} {c : Char} {cs rest text : List Char}

/-! ## Reading -/

theorem class?_negated (h : ']' ∉ cs) (rest : List Char) :
    class? ('!' :: c :: (cs ++ ']' :: rest)) = some (.oneOf true (members (c :: cs)), rest) := by
  rw [class?, Text.dropWhile_ne_append h]
  simp only [Text.takeWhile_ne_append h]

theorem class?_plain (hc : c ≠ '!') (h : ']' ∉ cs) (rest : List Char) :
    class? (c :: (cs ++ ']' :: rest)) = some (.oneOf false (members (c :: cs)), rest) := by
  rw [class?, Text.dropWhile_ne_append h]
  · simp only [Text.takeWhile_ne_append h]
  · rintro d ds rfl -
    exact hc rfl
  · rintro rfl
    exact absurd rfl hc

/-- The tokens that take one character. -/
def Token.Single (t : Token) : Prop := t ≠ .star ∧ t ≠ .components

theorem single_oneOf (negated : Bool) (is : List Interval) : (Token.oneOf negated is).Single :=
  ⟨by simp, by simp⟩

theorem takes_within :
    (Token.oneOf false is).takes c = true ↔ c ≠ '/' ∧ Interval.anyHolds is c = true := by
  simp [Token.takes]

theorem takes_except :
    (Token.oneOf true is).takes c = true ↔ c ≠ '/' ∧ ¬ Interval.anyHolds is c = true := by
  simp [Token.takes]

/-- A text that is read as one token wherever it stands. -/
def Reads (text : List Char) (t : Token) : Prop :=
  ∀ before rest, tokensAfter before (text ++ rest) =
    (tokensAfter text.getLast? rest).map (t :: ·)

theorem Reads.tokens? (h : Reads text t) : tokens? text = some [t] := by
  have := h none []
  rw [List.append_nil, tokensAfter] at this
  exact this

theorem reads_any : Reads ['?'] .any := by
  intro before rest
  rw [List.singleton_append, tokensAfter]
  rfl

theorem reads_literal (h₁ : c ≠ '*') (h₂ : c ≠ '?') (h₃ : c ≠ '[') : Reads [c] (.literal c) := by
  intro before rest
  rw [List.singleton_append, tokensAfter]
  · rfl
  · rintro _ rfl
    exact absurd rfl h₁
  · exact h₁
  · exact h₂
  · exact h₃

theorem reads_class (h : ∀ rest, class? (cs ++ ']' :: rest) = some (t, rest)) :
    Reads ('[' :: (cs ++ [']'])) t := by
  intro before rest
  have hlast : ('[' :: (cs ++ [']'])).getLast? = some ']' := List.getLast?_concat (l := '[' :: cs)
  rw [hlast, List.cons_append, List.append_assoc, List.singleton_append, tokensAfter]
  split
  · rename_i h'
    rw [h rest] at h'
    cases h'
    rfl
  · rename_i h'
    rw [h rest] at h'
    cases h'

/-- A star is read as itself if no other star follows. -/
theorem tokensAfter_star (before : Option Char) (h : rest.head? ≠ some '*') :
    tokensAfter before ('*' :: rest) = (tokensAfter (some '*') rest).map (.star :: ·) := by
  rw [tokensAfter]
  rintro cs rfl
  exact h rfl

/-- A text that is read as one token for one character does not begin with a star. -/
theorem Reads.head (h : Reads text t) (ht : t.Single) (rest : List Char) :
    (text ++ rest).head? ≠ some '*' := by
  have hread : tokensAfter none text = some [t] := h.tokens?
  cases text with
  | nil =>
    rw [tokensAfter] at hread
    cases hread
  | cons c cs =>
    intro hhead
    obtain rfl : c = '*' := by simpa using hhead
    by_cases hcs : cs.head? = some '*'
    · obtain ⟨ds, rfl⟩ := List.head?_eq_some_iff.mp hcs
      rw [tokensAfter.eq_def] at hread
      simp only [true_or, if_true] at hread
      split at hread
      · cases hread
        exact ht.2 rfl
      · obtain ⟨ts, -, heq⟩ := Option.map_eq_some_iff.mp hread
        cases heq
        exact ht.2 rfl
      · cases hread
    · rw [tokensAfter_star none hcs] at hread
      obtain ⟨ts, -, heq⟩ := Option.map_eq_some_iff.mp hread
      cases heq
      exact ht.1 rfl

/-! ## Covering a path -/

theorem length_starVerdicts {vs : List Bool} (h : vs.length = cs.length + 1) :
    (starVerdicts cs vs).length = cs.length + 1 := by
  fun_induction starVerdicts cs vs with
  | case1 c cs v vs rest ih =>
    simp only [List.length_cons] at h ⊢
    rw [ih (by omega)]
  | case2 => exact h

theorem length_componentVerdicts {vs : List Bool} (h : vs.length = cs.length + 1) :
    (componentVerdicts cs vs).1.length = cs.length + 1 := by
  fun_induction componentVerdicts cs vs with
  | case1 c cs v vs rest later heq here ih =>
    simp only [List.length_cons] at h ⊢
    rw [heq] at ih
    rw [ih (by omega)]
  | case2 => exact h

theorem length_verdicts (ts : List Token) (cs : List Char) :
    (verdicts ts cs).length = cs.length + 1 := by
  fun_induction verdicts ts cs with
  | case1 => simp
  | case2 ts cs ih => exact length_starVerdicts ih
  | case3 => simp
  | case4 ts cs _ ih => exact length_componentVerdicts ih
  | case5 t ts cs _ _ _ ih => simp [ih]

theorem verdicts_single (h : t.Single) (ts : List Token) (cs : List Char) :
    verdicts (t :: ts) cs =
      List.zipWith (fun c v => t.takes c && v) cs (verdicts ts cs).tail ++ [false] := by
  rw [verdicts]
  · exact h.1
  · intro hcomp _
    exact h.2 hcomp
  · exact h.2

/-- The verdicts on a text go on with the verdicts on its tail. -/
theorem verdicts_cons (ts : List Token) (c : Char) (cs : List Char) :
    verdicts ts (c :: cs) = covers ts (c :: cs) :: verdicts ts cs := by
  have hex : ∃ v, verdicts ts (c :: cs) = v :: verdicts ts cs := by
    fun_induction verdicts ts cs with
    | case1 cs => exact ⟨_, rfl⟩
    | case2 ts cs ih =>
      obtain ⟨v, hv⟩ := ih
      rw [verdicts, hv, starVerdicts]
      exact ⟨_, rfl⟩
    | case3 cs => exact ⟨_, rfl⟩
    | case4 ts cs hne ih =>
      obtain ⟨v, hv⟩ := ih
      rw [verdicts, hv, componentVerdicts]
      · exact ⟨_, rfl⟩
      · exact hne
    | case5 t ts cs hstar _ hcomp ih =>
      obtain ⟨v, hv⟩ := ih
      obtain ⟨w, ws, hw⟩ := List.exists_cons_of_length_eq_add_one (length_verdicts ts cs)
      rw [verdicts_single ⟨hstar, hcomp⟩, hv, List.tail_cons, hw]
      exact ⟨_, rfl⟩
  obtain ⟨v, hv⟩ := hex
  rw [covers, hv]
  rfl

@[simp] theorem covers_nil (cs : List Char) : covers [] cs = cs.isEmpty := by
  cases cs <;> rfl

theorem covers_star_nil (ts : List Token) : covers (.star :: ts) [] = covers ts [] := by
  rw [covers, verdicts, starVerdicts]
  · rfl
  · simp

theorem covers_star_cons (ts : List Token) (c : Char) (cs : List Char) :
    covers (.star :: ts) (c :: cs) =
      (covers ts (c :: cs) || (c != '/' && covers (.star :: ts) cs)) := by
  rw [covers, verdicts, verdicts_cons, starVerdicts]
  rfl

/-- A star takes a run of characters other than `/`. -/
theorem covers_star_iff : covers (.star :: ts) cs = true ↔
    ∃ run rest, run ++ rest = cs ∧ '/' ∉ run ∧ covers ts rest = true := by
  induction cs with
  | nil =>
    rw [covers_star_nil]
    constructor
    · intro h
      exact ⟨[], [], rfl, List.not_mem_nil, h⟩
    · rintro ⟨run, rest, heq, -, h⟩
      obtain ⟨-, rfl⟩ := List.append_eq_nil_iff.mp heq
      exact h
  | cons c cs ih =>
    rw [covers_star_cons, Bool.or_eq_true, Bool.and_eq_true, bne_iff_ne, ih]
    constructor
    · rintro (h | ⟨hc, run, rest, rfl, hrun, h⟩)
      · exact ⟨[], c :: cs, rfl, List.not_mem_nil, h⟩
      · exact ⟨c :: run, rest, rfl, by simp [hc.symm, hrun], h⟩
    · rintro ⟨run, rest, heq, hrun, h⟩
      cases run with
      | nil =>
        subst heq
        exact .inl h
      | cons d run =>
        obtain ⟨rfl, rfl⟩ := List.cons.inj heq
        simp only [List.mem_cons, not_or] at hrun
        exact .inr ⟨Ne.symm hrun.1, run, rest, rfl, hrun.2, h⟩

theorem covers_takes_nil (h : t.Single) (ts : List Token) : covers (t :: ts) [] = false := by
  rw [covers, verdicts_single h]
  rfl

theorem covers_takes_cons (h : t.Single) (ts : List Token) (c : Char) (cs : List Char) :
    covers (t :: ts) (c :: cs) = (t.takes c && covers ts cs) := by
  obtain ⟨v, vs, hv⟩ := List.exists_cons_of_length_eq_add_one (length_verdicts ts cs)
  rw [covers, verdicts_single h, verdicts_cons, List.tail_cons, hv, covers, hv]
  rfl

/-- A token for one character takes the first character. -/
theorem covers_takes_iff (h : t.Single) : covers (t :: ts) cs = true ↔
    ∃ c rest, c :: rest = cs ∧ t.takes c = true ∧ covers ts rest = true := by
  cases cs with
  | nil => simp [covers_takes_nil h]
  | cons d ds =>
    rw [covers_takes_cons h, Bool.and_eq_true]
    constructor
    · rintro ⟨hd, hds⟩
      exact ⟨d, ds, rfl, hd, hds⟩
    · rintro ⟨c, rest, heq, hc, hrest⟩
      obtain ⟨rfl, rfl⟩ := List.cons.inj heq
      exact ⟨hc, hrest⟩

/-! ## Whole components -/

/-- Whether `**` can take a run that ends after a `/`, for the other tokens to take the rest. -/
def goesOn (ts : List Token) (cs : List Char) : Bool := (componentVerdicts cs (verdicts ts cs)).2

theorem verdicts_components (h : ts ≠ []) (cs : List Char) :
    verdicts (.components :: ts) cs = (componentVerdicts cs (verdicts ts cs)).1 := by
  rw [verdicts]
  exact h

/-- At the end, `**` takes everything. -/
theorem covers_components_last (cs : List Char) : covers [.components] cs = true := by
  cases cs <;> rfl

theorem goesOn_nil (ts : List Token) : goesOn ts [] = false := by
  rw [goesOn, componentVerdicts]
  simp

theorem goesOn_cons (h : ts ≠ []) (c : Char) (cs : List Char) :
    goesOn ts (c :: cs) = if c = '/' then covers (.components :: ts) cs else goesOn ts cs := by
  have hhere : covers (.components :: ts) cs =
      (componentVerdicts cs (verdicts ts cs)).1.headD false := by
    rw [covers, verdicts_components h]
  rw [goesOn, verdicts_cons, componentVerdicts, hhere]
  rfl

/-- Before other tokens, `**` takes nothing or goes on. -/
theorem covers_components (h : ts ≠ []) (cs : List Char) :
    covers (.components :: ts) cs = (covers ts cs || goesOn ts cs) := by
  cases cs with
  | nil =>
    rw [goesOn_nil, Bool.or_false, covers, verdicts_components h, componentVerdicts]
    · rfl
    · simp
  | cons c cs =>
    rw [covers, verdicts_components h, verdicts_cons, goesOn, verdicts_cons, componentVerdicts]
    rfl

theorem goesOn_iff (h : ts ≠ []) : goesOn ts cs = true ↔
    ∃ run rest, run ++ rest = cs ∧ run.getLast? = some '/' ∧ covers ts rest = true := by
  induction cs with
  | nil =>
    rw [goesOn_nil]
    simp
  | cons c cs ih =>
    rw [goesOn_cons h]
    constructor
    · intro hgoes
      by_cases hc : c = '/'
      · rw [if_pos hc, covers_components h, Bool.or_eq_true, ih] at hgoes
        rcases hgoes with hrest | ⟨run, rest, rfl, hrun, hrest⟩
        · exact ⟨['/'], cs, by rw [hc]; rfl, rfl, hrest⟩
        · exact ⟨c :: run, rest, rfl, by simp [List.getLast?_cons, hrun], hrest⟩
      · rw [if_neg hc, ih] at hgoes
        obtain ⟨run, rest, rfl, hrun, hrest⟩ := hgoes
        exact ⟨c :: run, rest, rfl, by simp [List.getLast?_cons, hrun], hrest⟩
    · rintro ⟨run, rest, heq, hrun, hrest⟩
      cases run with
      | nil => cases hrun
      | cons d run =>
        simp only [List.cons_append, List.cons.injEq] at heq
        obtain ⟨rfl, rfl⟩ := heq
        cases run with
        | nil =>
          obtain rfl : d = '/' := by simpa using hrun
          rw [if_pos rfl, covers_components h, Bool.or_eq_true]
          exact .inl hrest
        | cons b run =>
          rw [List.getLast?_cons_cons] at hrun
          have hgoes : goesOn ts ((b :: run) ++ rest) = true := ih.mpr ⟨_, rest, rfl, hrun, hrest⟩
          split
          · rw [covers_components h, hgoes, Bool.or_true]
          · exact hgoes

/-- Before other tokens, `**` takes nothing or a run that ends after a `/`. -/
theorem covers_components_iff (h : ts ≠ []) : covers (.components :: ts) cs = true ↔
    ∃ run rest, run ++ rest = cs ∧ (run = [] ∨ run.getLast? = some '/') ∧
      covers ts rest = true := by
  rw [covers_components h, Bool.or_eq_true, goesOn_iff h]
  constructor
  · rintro (hrest | ⟨run, rest, rfl, hrun, hrest⟩)
    · exact ⟨[], cs, rfl, .inl rfl, hrest⟩
    · exact ⟨run, rest, rfl, .inr hrun, hrest⟩
  · rintro ⟨run, rest, rfl, rfl | hrun, hrest⟩
    · exact .inl hrest
    · exact .inr ⟨run, rest, rfl, hrun, hrest⟩

/-! ## One character -/

/-- Whether a text, read as a wildcard on its own, covers a path of one character. -/
def accepts (text : List Char) (c : Char) : Bool := (tokens? text).any (covers · [c])

theorem Reads.accepts (h : Reads text t) (ht : t.Single) (c : Char) :
    accepts text c = t.takes c := by
  rw [Wildcard.accepts, h.tokens?]
  show covers [t] [c] = _
  rw [covers_takes_cons ht, covers_nil]
  exact Bool.and_true _

end Wildcard
end FileWarden
