import FileWarden.Proofs.Pattern.Cover
import Mathlib.Data.List.Destutter

/-!
# Runs of stars

A star takes a run of characters other than `/`, and two stars would take no more than one. But the
wildcard text keeps them both, and there `**` stands for whole components or makes the text
malformed.

- **One star for a run** (`mergeStars`): the text in which each run is cut to one star spells the
  elements of the pattern without the repeated stars (`PatternText.mergeStars`).
- **What is covered** (`Covered`): what a pattern covers whose runs are all `**` as whole components
  (`exists_tokens_of_wholeRuns`). Any other run makes the wildcard text malformed
  (`tokensAfter_of_not_wholeRuns`).
- **Slashes** (`Cuts.count_slash`): a path cut by elements has as many `/` as these. With a `**` a
  path of another number of `/` is covered too (`Covered.exists_other`).
- **Agreement** (`merged_stars_agree_iff`): a pattern and the one without repeated stars cover the
  same paths exactly if there is no run, or if the latter covers nothing.
-/

namespace FileWarden
namespace Shell

variable {cs text path rest : List Char} {e : Element} {es : List Element} {o : Bool}

/-! ## One star for a run -/

/-- A text with each run of stars cut to one star. An escaped star belongs to no run, and neither
does one in a class. -/
def mergeStars (cs : List Char) : List Char :=
  match cs with
  | [] => []
  | '\\' :: c :: cs => '\\' :: c :: mergeStars cs
  | '*' :: '*' :: cs => mergeStars ('*' :: cs)
  | '[' :: cs =>
    match h : class? cs with
    | some (_, rest) =>
      have := length_of_class? h
      '[' :: (cs.take (cs.length - rest.length) ++ mergeStars rest)
    | none => '[' :: cs
  | c :: cs => c :: mergeStars cs
  termination_by cs.length

/-- Not both elements are stars. -/
def Apart (e f : Element) : Prop := e ≠ .star ∨ f ≠ .star

instance : DecidableRel Apart := fun _ _ => inferInstanceAs (Decidable (_ ∨ _))

/-- Elements without the repeated stars. -/
def oneStar (es : List Element) : List Element := es.destutter Apart

theorem oneStar_star_star (es : List Element) :
    oneStar (.star :: .star :: es) = oneStar (.star :: es) := by
  rw [oneStar, List.destutter_cons_cons, if_neg (by simp [Apart])]
  rfl

theorem oneStar_cons (h : e ≠ .star ∨ es.head? ≠ some .star) :
    oneStar (e :: es) = e :: oneStar es := by
  cases es with
  | nil => rfl
  | cons f fs =>
    rw [oneStar, List.destutter_cons_cons, if_pos (by simpa [Apart] using h)]
    rfl

theorem mergeStars_star (rest : List Char) : mergeStars ('*' :: rest) =
    if rest.head? = some '*' then mergeStars rest else '*' :: mergeStars rest := by
  split
  · rename_i h
    obtain ⟨ds, rfl⟩ := List.head?_eq_some_iff.mp h
    rw [mergeStars]
  · rename_i h
    rw [mergeStars]
    · rintro _ _ ⟨⟩
    · rintro ds - rfl
      exact h rfl
    · rintro ⟨⟩

theorem ElementText.head (h : ElementText text e) (hstar : e ≠ .star) :
    ∃ d ds, text = d :: ds ∧ d ≠ '*' := by
  cases h with
  | star => exact absurd rfl hstar
  | any => exact ⟨_, _, rfl, by decide⟩
  | plain _ _ h => exact ⟨_, _, rfl, h⟩
  | escaped => exact ⟨_, _, rfl, by decide⟩
  | oneOf => exact ⟨_, _, rfl, by decide⟩
  | noneOf => exact ⟨_, _, rfl, by decide⟩

theorem mergeStars_class (h : ElementText ('[' :: text) e) (rest : List Char) :
    mergeStars ('[' :: (text ++ rest)) = '[' :: (text ++ mergeStars rest) := by
  rw [mergeStars]
  split
  · rename_i h'
    rw [h.class?] at h'
    cases h'
    simp
  · rename_i h'
    rw [h.class?] at h'
    cases h'

theorem ElementText.mergeStars (h : ElementText text e) (hstar : e ≠ .star) (rest : List Char) :
    mergeStars (text ++ rest) = text ++ mergeStars rest := by
  cases h with
  | star => exact absurd rfl hstar
  | any =>
    rw [List.singleton_append, Shell.mergeStars] <;> simp
  | plain h₁ h₂ h₃ h₄ =>
    rw [List.singleton_append, Shell.mergeStars] <;> simp_all
  | escaped => exact Shell.mergeStars.eq_2 _ rest
  | oneOf hms hne hhead => exact mergeStars_class (.oneOf hms hne hhead) rest
  | noneOf hms hne => exact mergeStars_class (.noneOf hms hne) rest

/-- The text in which runs are cut spells the elements without the repeated stars. -/
theorem PatternText.mergeStars (h : PatternText cs es) :
    PatternText (mergeStars cs) (oneStar es) := by
  induction h with
  | nil =>
    rw [Shell.mergeStars]
    exact .nil
  | @cons text rest e es he hes ih =>
    by_cases hstar : e = .star
    · subst hstar
      cases he
      rw [List.singleton_append, mergeStars_star]
      cases hes with
      | nil => exact .cons .star ih
      | @cons text' rest' f fs hf hfs =>
        by_cases hnext : f = .star
        · subst hnext
          cases hf
          rw [if_pos (show (['*'] ++ rest').head? = some '*' from rfl), oneStar_star_star]
          exact ih
        · obtain ⟨d, ds, rfl, hd⟩ := hf.head hnext
          rw [if_neg (by simpa using hd), oneStar_cons (.inr (by simpa using hnext))]
          exact .cons .star ih
    · rw [he.mergeStars hstar, oneStar_cons (.inl hstar)]
      exact .cons he ih

/-! ## What is covered -/

/-- Whether an element is a `/`. -/
def Element.isSlash : Element → Bool
  | .plain c => c == '/'
  | .escaped c => c == '/'
  | _ => false

/-- What a pattern covers from some place on, as its wildcard text is read. A component may begin
there if `begins` is true. -/
inductive Covered : Bool → List Element → List Char → Prop where
  | nil {begins : Bool} : Covered begins [] []
  | one {begins : Bool} {e : Element} {es : List Element} {piece rest : List Char} :
    e ≠ .star ∨ es.head? ≠ some .star → e.Takes piece → Covered e.isSlash es rest →
    Covered begins (e :: es) (piece ++ rest)
  /-- A `**/` takes nothing or a run that ends after a `/`. -/
  | whole {e : Element} {es : List Element} {run rest : List Char} : e.isSlash = true →
    run = [] ∨ run.getLast? = some '/' → Covered true es rest →
    Covered true (.star :: .star :: e :: es) (run ++ rest)
  /-- A `**` or a `**/` at the end takes everything. -/
  | last {es : List Element} {path : List Char} :
    es = [] ∨ (∃ e, es = [e] ∧ e.isSlash = true) → Covered true (.star :: .star :: es) path

/-- Whether each run of stars is a `**` that is a whole component. -/
def wholeRuns : Bool → List Element → Bool
  | begins, [.star, .star] => begins
  | begins, .star :: .star :: e :: es => begins && e.isSlash && wholeRuns true es
  | _, e :: es => wholeRuns e.isSlash es
  | _, [] => true

/-- Elements that do not begin with two stars. -/
theorem apart_of_not_run (hlast : e = .star → es = [.star] → False)
    (hwhole : ∀ f fs, e = .star → es = .star :: f :: fs → False) :
    e ≠ .star ∨ es.head? ≠ some .star := by
  by_cases hstar : e = .star
  · refine .inr fun hhead => ?_
    obtain ⟨fs, rfl⟩ := List.head?_eq_some_iff.mp hhead
    cases fs with
    | nil => exact hlast hstar rfl
    | cons f fs => exact hwhole f fs hstar rfl
  · exact .inl hstar

/-- Whether a component may begin after a character. -/
def beginsAfter (before : Option Char) : Bool := before = none || before = some '/'

theorem isSlash_iff : e.isSlash = true ↔ e = .plain '/' ∨ e = .escaped '/' := by
  cases e <;> simp [Element.isSlash]

theorem text_of_isSlash (h : e.isSlash = true) : e.text = ['/'] := by
  rcases isSlash_iff.mp h with rfl | rfl <;> rfl

/-- A class is written in brackets, but for the class of `!` alone. -/
theorem classText_ends (negated : Bool) (is : List Interval) :
    classText negated is = ['!'] ∨ ∃ cs, classText negated is = '[' :: (cs ++ [']']) := by
  unfold classText
  split
  · exact .inl rfl
  · exact .inr ⟨_, rfl⟩

/-- The text of an element is not empty, and begins and ends with a `/` only if the element is
one. -/
theorem text_ends (e : Element) : ∃ c cs, e.text = c :: cs ∧ (c = '/' ↔ e.isSlash = true) ∧
    (e.text.getLast? = some '/' ↔ e.isSlash = true) := by
  cases e with
  | star => exact ⟨'*', [], rfl, by decide, by decide⟩
  | any => exact ⟨'?', [], rfl, by decide, by decide⟩
  | plain c =>
    exact ⟨c, [], rfl, by simp [Element.isSlash], by simp [Element.isSlash, Element.text]⟩
  | escaped c =>
    simp only [Element.text, escapedText, Element.isSlash]
    split
    · rename_i h
      have hne : c ≠ '/' := by rcases h with rfl | rfl | rfl | rfl <;> decide
      exact ⟨'[', _, rfl, by simp [hne], by simp [hne]⟩
    · exact ⟨c, [], rfl, by simp, by simp⟩
  | oneOf negated is =>
    simp only [Element.text, Element.isSlash]
    rcases classText_ends negated is with h | ⟨cs, h⟩
    · exact ⟨'!', [], h, by decide, by rw [h]; decide⟩
    · refine ⟨'[', _, h, by decide, ?_⟩
      rw [h, ← List.cons_append, List.getLast?_concat]
      decide

theorem beginsAfter_text (e : Element) : beginsAfter e.text.getLast? = e.isSlash := by
  obtain ⟨c, cs, htext, -, hlast⟩ := text_ends e
  have hsome : e.text.getLast? ≠ none := by simp [htext]
  rw [Bool.eq_iff_iff, ← hlast]
  simp [beginsAfter, hsome]

/-! ## Reading a run -/

theorem tokensAfter_run_last (before : Option Char) :
    Wildcard.tokensAfter before ['*', '*'] =
      if beginsAfter before then some [.components] else none := by
  rw [Wildcard.tokensAfter]
  simp [beginsAfter]

theorem tokensAfter_run_slash (before : Option Char) (cs : List Char) :
    Wildcard.tokensAfter before ('*' :: '*' :: '/' :: cs) = if beginsAfter before then
      (Wildcard.tokensAfter (some '/') cs).map (.components :: ·) else none := by
  rw [Wildcard.tokensAfter]
  simp [beginsAfter]

theorem tokensAfter_run_other {c : Char} (h : c ≠ '/') (before : Option Char) (cs : List Char) :
    Wildcard.tokensAfter before ('*' :: '*' :: c :: cs) = none := by
  rw [Wildcard.tokensAfter] <;> simp [h]

theorem wholeRuns_cons (h : e ≠ .star ∨ es.head? ≠ some .star) :
    wholeRuns o (e :: es) = wholeRuns e.isSlash es := by
  rw [wholeRuns]
  · rintro rfl rfl
    simp at h
  · rintro f fs rfl rfl
    simp at h

theorem covered_cons (h : e ≠ .star ∨ es.head? ≠ some .star) : Covered o (e :: es) path ↔
    ∃ piece rest, piece ++ rest = path ∧ e.Takes piece ∧ Covered e.isSlash es rest := by
  constructor
  · intro hpath
    cases hpath with
    | one _ he hrest => exact ⟨_, _, rfl, he, hrest⟩
    | whole => simp at h
    | last => simp at h
  · rintro ⟨piece, rest, rfl, he, hrest⟩
    exact .one h he hrest

theorem covered_whole (he : e.isSlash = true) (hes : es ≠ []) :
    Covered true (.star :: .star :: e :: es) path ↔ ∃ run rest, run ++ rest = path ∧
      (run = [] ∨ run.getLast? = some '/') ∧ Covered true es rest := by
  constructor
  · intro hpath
    cases hpath with
    | one h => simp at h
    | whole _ hrun hrest => exact ⟨_, _, rfl, hrun, hrest⟩
    | last h => simp [hes] at h
  · rintro ⟨run, rest, rfl, hrun, hrest⟩
    exact .whole he hrun hrest

/-- Nothing is covered where a run of stars is anything but a `**` that is a whole component. -/
theorem Covered.wholeRuns (h : Covered o es path) : wholeRuns o es = true := by
  induction h with
  | nil => rfl
  | one h _ _ ih => rw [wholeRuns_cons h, ih]
  | whole he _ _ ih => rw [Shell.wholeRuns, he, ih]; rfl
  | last h =>
    rcases h with rfl | ⟨e, rfl, he⟩
    · rfl
    · rw [Shell.wholeRuns, he]; rfl

/-- If all runs are whole components, the wildcard text is well formed and covers what it should. -/
theorem exists_tokens_of_wholeRuns (hes : ∀ e ∈ es, ∃ text, ElementText text e)
    (before : Option Char) (h : wholeRuns (beginsAfter before) es = true) :
    ∃ ts, Wildcard.tokensAfter before (es.flatMap Element.text) = some ts ∧
      (es ≠ [] → ts ≠ []) ∧
      ∀ path, Wildcard.covers ts path = true ↔ Covered (beginsAfter before) es path := by
  generalize hbegins : beginsAfter before = begins at h ⊢
  induction begins, es using wholeRuns.induct generalizing before with
  | case1 begins =>
    obtain rfl : begins = true := h
    refine ⟨[.components], ?_, by simp, fun path => ?_⟩
    · show Wildcard.tokensAfter before ['*', '*'] = _
      rw [tokensAfter_run_last, hbegins, if_pos rfl]
    · rw [Wildcard.covers_components_last]
      exact iff_of_true rfl (.last (.inl rfl))
  | case2 begins e es ih =>
    rw [wholeRuns, Bool.and_eq_true, Bool.and_eq_true] at h
    obtain ⟨⟨rfl, he⟩, h⟩ := h
    obtain ⟨ts, hts, hne, hcovers⟩ := ih (fun f hf => hes f (by simp [hf])) (some '/') rfl h
    refine ⟨.components :: ts, ?_, by simp, fun path => ?_⟩
    · show Wildcard.tokensAfter before ('*' :: '*' :: (e.text ++ es.flatMap Element.text)) = _
      rw [text_of_isSlash he, List.singleton_append, tokensAfter_run_slash, hbegins, if_pos rfl,
        hts]
      rfl
    · by_cases hnil : es = []
      · subst hnil
        obtain rfl : [] = ts := by
          rw [List.flatMap_nil, Wildcard.tokensAfter] at hts
          exact Option.some.inj hts
        rw [Wildcard.covers_components_last]
        exact iff_of_true rfl (.last (.inr ⟨e, rfl, he⟩))
      · rw [Wildcard.covers_components_iff (hne hnil), covered_whole he hnil]
        simp only [hcovers]
  | case3 begins e es hlast hwhole ih =>
    have happart := apart_of_not_run hlast hwhole
    rw [wholeRuns_cons happart] at h
    have hes' : ∀ f ∈ es, ∃ text, ElementText text f := fun f hf => hes f (by simp [hf])
    simp only [covered_cons happart]
    by_cases hstar : e = .star
    · subst hstar
      obtain ⟨ts, hts, -, hcovers⟩ := ih hes' (some '*') rfl h
      refine ⟨.star :: ts, ?_, by simp, fun path => ?_⟩
      · have hhead := head?_flatMap_text hes' (happart.resolve_left (absurd rfl))
        show Wildcard.tokensAfter before ('*' :: es.flatMap Element.text) = _
        rw [Wildcard.tokensAfter_star before hhead, hts]
        rfl
      · rw [Wildcard.covers_star_iff]
        simp only [Element.Takes, hcovers]
    · obtain ⟨text, he⟩ := hes e (by simp)
      obtain ⟨t, ht, hreads, htakes⟩ := he.reads hstar
      obtain ⟨ts, hts, -, hcovers⟩ := ih hes' _ (beginsAfter_text e) h
      refine ⟨t :: ts, ?_, by simp, fun path => ?_⟩
      · rw [List.flatMap_cons, hreads, hts]
        rfl
      · rw [covers_takes_piece ht htakes]
        simp only [hcovers]
  | case4 begins =>
    refine ⟨[], by rw [List.flatMap_nil, Wildcard.tokensAfter], by simp, fun path => ?_⟩
    rw [Wildcard.covers_nil, List.isEmpty_iff]
    constructor
    · rintro rfl
      exact .nil
    · rintro ⟨⟩
      rfl

/-- If some run is no whole component, the wildcard text is refused. -/
theorem tokensAfter_of_not_wholeRuns (hes : ∀ e ∈ es, ∃ text, ElementText text e)
    (before : Option Char) (h : wholeRuns (beginsAfter before) es = false) :
    Wildcard.tokensAfter before (es.flatMap Element.text) = none := by
  generalize hbegins : beginsAfter before = begins at h
  induction begins, es using wholeRuns.induct generalizing before with
  | case1 begins =>
    show Wildcard.tokensAfter before ['*', '*'] = none
    rw [tokensAfter_run_last, hbegins, show begins = false from h]
    rfl
  | case2 begins e es ih =>
    show Wildcard.tokensAfter before ('*' :: '*' :: (e.text ++ es.flatMap Element.text)) = none
    by_cases he : e.isSlash = true
    · rw [text_of_isSlash he, List.singleton_append, tokensAfter_run_slash, hbegins]
      rw [wholeRuns, he, Bool.and_true] at h
      cases begins with
      | false => rfl
      | true =>
        rw [if_pos rfl, ih (fun f hf => hes f (by simp [hf])) (some '/') rfl h]
        rfl
    · obtain ⟨c, cs, htext, hslash, -⟩ := text_ends e
      rw [htext]
      exact tokensAfter_run_other (mt hslash.mp he) before _
  | case3 begins e es hlast hwhole ih =>
    have happart := apart_of_not_run hlast hwhole
    rw [wholeRuns_cons happart] at h
    have hes' : ∀ f ∈ es, ∃ text, ElementText text f := fun f hf => hes f (by simp [hf])
    by_cases hstar : e = .star
    · subst hstar
      have hhead := head?_flatMap_text hes' (happart.resolve_left (absurd rfl))
      show Wildcard.tokensAfter before ('*' :: es.flatMap Element.text) = none
      rw [Wildcard.tokensAfter_star before hhead, ih hes' (some '*') rfl h]
      rfl
    · obtain ⟨text, he⟩ := hes e (by simp)
      obtain ⟨t, -, hreads, -⟩ := he.reads hstar
      rw [List.flatMap_cons, hreads, ih hes' _ (beginsAfter_text e) h]
      rfl
  | case4 => cases h

/-! ## One star and whole components -/

theorem takes_of_isSlash (h : e.isSlash = true) {piece : List Char} :
    e.Takes piece ↔ piece = ['/'] := by
  rcases isSlash_iff.mp h with rfl | rfl <;> rfl

theorem oneStar_run (h : e.isSlash = true) (es : List Element) :
    oneStar (.star :: .star :: e :: es) = .star :: e :: oneStar es := by
  have hne : e ≠ .star := by
    rintro rfl
    cases h
  rw [oneStar_star_star, oneStar_cons (.inr (by simpa using hne)), oneStar_cons (.inl hne)]

/-- A `**/` takes what `*/` takes, and a `**` at the end what `*` takes. -/
theorem covered_of_cuts (h : wholeRuns o es = true) (hcuts : Cuts (oneStar es) path) :
    Covered o es path := by
  induction o, es using wholeRuns.induct generalizing path with
  | case1 o =>
    obtain rfl : o = true := h
    exact .last (.inl rfl)
  | case2 o e es ih =>
    rw [wholeRuns, Bool.and_eq_true, Bool.and_eq_true] at h
    obtain ⟨⟨rfl, he⟩, h⟩ := h
    rw [oneStar_run he, cuts_cons] at hcuts
    obtain ⟨run, _, rfl, -, hcuts⟩ := hcuts
    obtain ⟨_, rest, rfl, hslash, hrest⟩ := cuts_cons.mp hcuts
    obtain rfl := (takes_of_isSlash he).mp hslash
    rw [← List.append_assoc]
    exact .whole he (.inr List.getLast?_concat) (ih h hrest)
  | case3 o e es hlast hwhole ih =>
    have happart := apart_of_not_run hlast hwhole
    rw [wholeRuns_cons happart] at h
    rw [oneStar_cons happart, cuts_cons] at hcuts
    obtain ⟨piece, rest, rfl, he, hrest⟩ := hcuts
    exact .one happart he (ih h hrest)
  | case4 =>
    obtain rfl := cuts_nil.mp hcuts
    exact .nil

/-- If a pattern covers a path, so does the one without repeated stars. -/
theorem Covered.exists_cuts (h : Covered o es path) : ∃ other, Cuts (oneStar es) other := by
  have hrun {e : Element} {es : List Element} {rest : List Char} (he : e.isSlash = true)
      (hrest : Cuts es rest) : Cuts (.star :: e :: es) ('/' :: rest) :=
    cuts_cons.mpr ⟨[], _, rfl, List.not_mem_nil,
      cuts_cons.mpr ⟨['/'], rest, rfl, (takes_of_isSlash he).mpr rfl, hrest⟩⟩
  induction h with
  | nil => exact ⟨[], cuts_nil.mpr rfl⟩
  | @one _ _ _ piece _ happart he _ ih =>
    obtain ⟨other, hother⟩ := ih
    rw [oneStar_cons happart]
    exact ⟨piece ++ other, cuts_cons.mpr ⟨piece, other, rfl, he, hother⟩⟩
  | whole he _ _ ih =>
    obtain ⟨other, hother⟩ := ih
    rw [oneStar_run he]
    exact ⟨_, hrun he hother⟩
  | last hend =>
    rcases hend with rfl | ⟨e, rfl, he⟩
    · exact ⟨[], cuts_cons.mpr ⟨[], [], rfl, List.not_mem_nil, cuts_nil.mpr rfl⟩⟩
    · rw [oneStar_run he]
      exact ⟨_, hrun he (cuts_nil.mpr rfl)⟩

/-! ## Slashes -/

theorem Element.Takes.count_slash {piece : List Char} (h : e.Takes piece) :
    piece.count '/' = if e.isSlash then 1 else 0 := by
  cases e with
  | star => exact List.count_eq_zero.mpr h
  | any =>
    obtain ⟨c, rfl, hc⟩ := h
    simp [Element.isSlash, hc]
  | plain c =>
    obtain rfl : piece = [c] := h
    simp [Element.isSlash, List.count_singleton]
  | escaped c =>
    obtain rfl : piece = [c] := h
    simp [Element.isSlash, List.count_singleton]
  | oneOf =>
    obtain ⟨c, rfl, hc, -⟩ := h
    simp [Element.isSlash, hc]

/-- A path that is cut by elements has the slashes of the elements. -/
theorem Cuts.count_slash (h : Cuts es path) : path.count '/' = es.countP Element.isSlash := by
  induction es generalizing path with
  | nil =>
    obtain rfl := cuts_nil.mp h
    rfl
  | cons e es ih =>
    obtain ⟨piece, rest, rfl, he, hrest⟩ := cuts_cons.mp h
    rw [List.count_append, he.count_slash, ih hrest, List.countP_cons, Nat.add_comm]

theorem countP_oneStar (es : List Element) :
    (oneStar es).countP Element.isSlash = es.countP Element.isSlash := by
  induction es with
  | nil => rfl
  | cons e es ih =>
    by_cases h : e ≠ .star ∨ es.head? ≠ some .star
    · rw [oneStar_cons h, List.countP_cons, List.countP_cons, ih]
    · simp only [not_or, Decidable.not_not] at h
      obtain ⟨rfl, hhead⟩ := h
      obtain ⟨fs, rfl⟩ := List.head?_eq_some_iff.mp hhead
      rw [oneStar_star_star, ih]
      exact (List.countP_cons_of_neg (by simp [Element.isSlash])).symm

/-- With a run of stars, a pattern that covers a path covers one with another number of slashes
too. -/
theorem Covered.exists_other (h : Covered o es path) (hruns : ¬ es.IsChain Apart) :
    ∃ other, Covered o es other ∧ other.count '/' ≠ es.countP Element.isSlash := by
  induction h with
  | nil => exact absurd .nil hruns
  | @one _ e es piece _ happart he _ ih =>
    have hes : ¬ es.IsChain Apart := by
      refine fun hes => hruns (List.isChain_cons.mpr ⟨fun f hf => ?_, hes⟩)
      rw [Option.mem_def] at hf
      simpa [Apart, hf] using happart
    obtain ⟨other, hother, hcount⟩ := ih hes
    refine ⟨piece ++ other, .one happart he hother, ?_⟩
    rw [List.count_append, he.count_slash, List.countP_cons]
    omega
  | @whole e es run rest he hrun hrest _ =>
    -- The `**/` takes nothing or one more `/`.
    by_cases hcount : rest.count '/' = (Element.star :: .star :: e :: es).countP Element.isSlash
    · refine ⟨['/'] ++ rest, .whole he (.inr rfl) hrest, ?_⟩
      rw [List.count_append, ← hcount]
      simp
    · exact ⟨[] ++ rest, .whole he (.inl rfl) hrest, hcount⟩
  | @last es path hend =>
    refine ⟨List.replicate ((Element.star :: .star :: es).countP Element.isSlash + 1) '/',
      .last hend, ?_⟩
    rw [List.count_replicate_self]
    omega

end Shell

namespace Pattern

open Shell

variable {p : String} {es : List Element}

/-- Pattern `p` with each run of stars cut to one star. -/
def withOneStar (p : String) : String := String.ofList (mergeStars p.toList)

theorem tokens?_ofString (h : elements? p.toList = some es) :
    (Pattern.ofString p).tokens? = Wildcard.tokens? (es.flatMap Element.text) := by
  show (wildcardText? p.toList).bind Wildcard.tokens? = _
  rw [wildcardText?, h]
  rfl

/-- What any well-formed pattern covers. -/
theorem covers_iff_covered (h : elements? p.toList = some es) (path : String) :
    (Pattern.ofString p).covers path = true ↔ Covered true es path.toList := by
  have hes := (elements?_iff.mp h).exists_text
  rw [covers, tokens?_ofString h, Wildcard.tokens?]
  cases hwhole : wholeRuns (beginsAfter none) es with
  | true =>
    obtain ⟨ts, hts, -, hcovers⟩ := exists_tokens_of_wholeRuns hes none hwhole
    rw [hts]
    exact hcovers path.toList
  | false =>
    rw [tokensAfter_of_not_wholeRuns hes none hwhole]
    refine iff_of_false (by simp) fun hcovered => ?_
    rw [show wholeRuns (beginsAfter none) es = true from hcovered.wholeRuns] at hwhole
    cases hwhole

theorem covers_iff_cuts (h : elements? p.toList = some es) (hstars : es.IsChain Apart)
    (path : String) : (Pattern.ofString p).covers path = true ↔ Cuts es path.toList := by
  obtain ⟨ts, hts, hcovers⟩ := exists_tokens (elements?_iff.mp h) hstars
  rw [covers, tokens?_ofString h, Wildcard.tokens?, hts none]
  exact hcovers path.toList

theorem elements?_withOneStar (h : elements? p.toList = some es) :
    elements? (withOneStar p).toList = some (oneStar es) := by
  rw [withOneStar, String.toList_ofList]
  exact elements?_iff.mpr (elements?_iff.mp h).mergeStars

theorem covers_withOneStar_iff (h : elements? p.toList = some es) (path : String) :
    (ofString (withOneStar p)).covers path = true ↔ Cuts (oneStar es) path.toList :=
  covers_iff_cuts (elements?_withOneStar h) (List.isChain_destutter ..) path

theorem covers_withOneStar_of_isChain (h : elements? p.toList = some es)
    (hstars : es.IsChain Apart) (path : String) :
    (ofString p).covers path = (ofString (withOneStar p)).covers path := by
  rw [Bool.eq_iff_iff, covers_withOneStar_iff h, covers_iff_cuts h hstars, oneStar,
    List.destutter_of_isChain Apart es hstars]

/-- If a pattern covers a path, single stars cover one too. -/
theorem exists_covers_withOneStar (h : elements? p.toList = some es) {path : String}
    (hpath : (ofString p).covers path = true) :
    ∃ other, (ofString (withOneStar p)).covers other = true := by
  obtain ⟨other, hother⟩ := ((covers_iff_covered h path).mp hpath).exists_cuts
  refine ⟨String.ofList other, (covers_withOneStar_iff h _).mpr ?_⟩
  rwa [String.toList_ofList]

/-- With a run of stars, a pattern that covers a path covers one that single stars do not. -/
theorem exists_covers_of_run (h : elements? p.toList = some es) (hruns : ¬ es.IsChain Apart)
    {path : String} (hpath : (ofString p).covers path = true) :
    ∃ other, (ofString p).covers other = true ∧
      (ofString (withOneStar p)).covers other = false := by
  obtain ⟨other, hother, hcount⟩ := ((covers_iff_covered h path).mp hpath).exists_other hruns
  refine ⟨String.ofList other, (covers_iff_covered h _).mpr ?_, ?_⟩
  · rwa [String.toList_ofList]
  · rw [← Bool.not_eq_true, covers_withOneStar_iff h, String.toList_ofList]
    intro hcuts
    exact hcount (hcuts.count_slash.trans (countP_oneStar es))

theorem disallows_of_not_contains {path : String}
    (h : Text.contains p.toList path.toList = false) :
    (Policy.ofTexts [p]).disallows path = (Pattern.ofString p).covers path := by
  simp [Policy.ofTexts, Policy.disallows, matchesPath, ofString, h]

/-- **A run of stars and one star.** Cutting each run of stars to one gives a pattern that covers
what the same elements with single stars cover. The pattern itself covers the same exactly if it has
no run or nothing is covered. With whole runs it covers more, and with any other run nothing. -/
theorem merged_stars_agree_iff (h : elements? p.toList = some es) :
    let q := withOneStar p
    elements? q.toList = some (oneStar es) ∧
    (∀ path, (ofString q).covers path = true ↔ Cuts (oneStar es) path.toList) ∧
    (∀ path, (ofString p).covers path = true ↔ Covered true es path.toList) ∧
    (if wholeRuns true es = true then
      ∀ path, (ofString q).covers path = true → (ofString p).covers path = true
    else (ofString p).tokens? = none) ∧
    ((∀ path, (ofString p).covers path = (ofString q).covers path) ↔
      es.IsChain (fun e f => e ≠ .star ∨ f ≠ .star) ∨ ∀ path, (ofString q).covers path = false) ∧
    ∀ path : String, Text.contains p.toList path.toList = false →
      Text.contains q.toList path.toList = false →
      ((Policy.ofTexts [p]).disallows path = (Policy.ofTexts [q]).disallows path ↔
        (ofString p).covers path = (ofString q).covers path) := by
  intro q
  have hq := covers_withOneStar_iff h
  have hp := covers_iff_covered h
  refine ⟨elements?_withOneStar h, hq, hp, ?_, ⟨fun hagree => ?_, ?_⟩, fun path hpath hpath' => ?_⟩
  · split
    · rename_i hwhole
      intro path hpath
      exact (hp path).mpr (covered_of_cuts hwhole ((hq path).mp hpath))
    · rename_i hwhole
      rw [tokens?_ofString h]
      exact tokensAfter_of_not_wholeRuns (elements?_iff.mp h).exists_text none
        (Bool.not_eq_true _ ▸ hwhole)
  · rw [Decidable.or_iff_not_imp_left]
    intro hruns path
    rw [← hagree, ← Bool.not_eq_true]
    intro hpath
    obtain ⟨other, hother, hnot⟩ := exists_covers_of_run h hruns hpath
    rw [hagree, hnot] at hother
    cases hother
  · rintro (hstars | hnone) path
    · exact covers_withOneStar_of_isChain h hstars path
    · rw [hnone, ← Bool.not_eq_true]
      intro hpath
      obtain ⟨other, hother⟩ := exists_covers_withOneStar h hpath
      rw [hnone] at hother
      cases hother
  · rw [disallows_of_not_contains hpath, disallows_of_not_contains hpath']

/-- The pattern `/a/**/[b-d]*`, with a run that is a whole component: it covers what `/a/*/[b-d]*`
covers, and more. -/
theorem whole_run_covers_more :
    elements? "/a/**/[b-d]*".toList = some [.plain '/', .plain 'a', .plain '/', .star, .star,
      .plain '/', .oneOf false [⟨'b', 'd'⟩], .star] ∧
    withOneStar "/a/**/[b-d]*" = "/a/*/[b-d]*" ∧
    (∀ path, (ofString "/a/*/[b-d]*").covers path = true →
      (ofString "/a/**/[b-d]*").covers path = true) ∧
    ¬ ∀ path, (ofString "/a/**/[b-d]*").covers path = (ofString "/a/*/[b-d]*").covers path := by
  have hread : elements? "/a/**/[b-d]*".toList = some [.plain '/', .plain 'a', .plain '/', .star,
      .star, .plain '/', .oneOf false [⟨'b', 'd'⟩], .star] := by decide +kernel
  have hone : withOneStar "/a/**/[b-d]*" = "/a/*/[b-d]*" := by decide +kernel
  obtain ⟨-, -, -, hmore, hagree, -⟩ := merged_stars_agree_iff hread
  rw [hone] at hmore hagree
  refine ⟨hread, hone, hmore, fun hall => ?_⟩
  rcases hagree.mp hall with hstars | hnone
  · exact absurd hstars (by decide)
  · have : (ofString "/a/*/[b-d]*").covers "/a/x/c" = true := by decide +kernel
    rw [hnone] at this
    cases this

/-- The pattern `/etc/**` covers a path in a directory below, which `/etc/*` does not cover. The
pattern `/tmp/a**` covers no path at all, not even one that `/tmp/a*` covers. -/
theorem run_of_stars_is_no_star :
    withOneStar "/etc/**" = "/etc/*" ∧
    (ofString "/etc/**").covers "/etc/ssl/key" = true ∧
    (ofString "/etc/*").covers "/etc/ssl/key" = false ∧
    (Policy.ofTexts ["/etc/**"]).disallows "/etc/ssl/key" = true ∧
    (Policy.ofTexts ["/etc/*"]).disallows "/etc/ssl/key" = false ∧
    withOneStar "/tmp/a**" = "/tmp/a*" ∧
    (ofString "/tmp/a**").covers "/tmp/ab" = false ∧
    (ofString "/tmp/a*").covers "/tmp/ab" = true ∧
    ¬ ∀ p : String, (wildcardText? p.toList).isSome = true →
      ∀ path, (ofString p).covers path = (ofString (withOneStar p)).covers path := by
  have hdeep : (ofString "/etc/**").covers "/etc/ssl/key" = true := by decide +kernel
  have hone : withOneStar "/etc/**" = "/etc/*" := by decide +kernel
  have hshallow : (ofString "/etc/*").covers "/etc/ssl/key" = false := by decide +kernel
  refine ⟨hone, hdeep, hshallow, by decide +kernel, by decide +kernel, by decide +kernel,
    by decide +kernel, by decide +kernel, fun hall => ?_⟩
  have := hall "/etc/**" (by decide +kernel) "/etc/ssl/key"
  rw [hone, hdeep, hshallow] at this
  cases this

end Pattern
end FileWarden
