import FileWarden.Policy
import FileWarden.Proofs.Pattern.Class
import Mathlib.Data.List.Forall2

/-!
# What a pattern covers

- **Pieces** (`Element.Takes`, `Cuts`): a path is cut into one piece for each element of a pattern.
- **Elements are read back** (`ElementText.reads`): the text written for an element other than a star
  is read as one token wherever it stands, and that token takes what the element takes.
- **Patterns** (`exists_tokens`): the text written for a pattern without stars side by side is read
  element by element, and its tokens cover the paths that the pattern cuts (`covers_iff_cuts`).
-/

namespace FileWarden
namespace Shell

variable {cs text path : List Char} {e : Element} {es : List Element}

/-! ## Pieces -/

/-- What one element takes. A class takes what the text written for it takes on its own. -/
def Element.Takes : Element → List Char → Prop
  | .star, piece => '/' ∉ piece
  | .any, piece => ∃ c, piece = [c] ∧ c ≠ '/'
  | .plain c, piece => piece = [c]
  | .escaped c, piece => piece = [c]
  | .oneOf negated is, piece =>
    ∃ c, piece = [c] ∧ c ≠ '/' ∧ Wildcard.accepts (classText negated is) c = true

/-- The path is made of pieces, one for each element in order. -/
def Cuts (es : List Element) (path : List Char) : Prop :=
  ∃ pieces : List (List Char), pieces.flatten = path ∧ List.Forall₂ Element.Takes es pieces

theorem cuts_nil : Cuts [] path ↔ path = [] := by
  constructor
  · rintro ⟨pieces, rfl, h⟩
    cases h
    rfl
  · rintro rfl
    exact ⟨[], rfl, .nil⟩

theorem cuts_cons : Cuts (e :: es) path ↔
    ∃ piece rest, piece ++ rest = path ∧ e.Takes piece ∧ Cuts es rest := by
  constructor
  · rintro ⟨pieces, rfl, h⟩
    cases h with
    | @cons _ piece _ pieces he hes =>
      exact ⟨piece, pieces.flatten, rfl, he, pieces, rfl, hes⟩
  · rintro ⟨piece, _, rfl, he, pieces, rfl, hes⟩
    exact ⟨piece :: pieces, rfl, .cons he hes⟩

/-! ## Elements are read back -/

/-- A literal takes its own character. -/
theorem takes_literal {c : Char} {piece : List Char} : piece = [c] ↔
    ∃ d, piece = [d] ∧ (Wildcard.Token.literal c).takes d = true := by
  constructor
  · rintro rfl
    exact ⟨c, rfl, beq_self_eq_true c⟩
  · rintro ⟨d, rfl, hd⟩
    rw [eq_of_beq hd]

/-- So does a class of one character, unless that is a `/`. -/
theorem takes_class {c : Char} (hc : c ≠ '/') {piece : List Char} : piece = [c] ↔
    ∃ d, piece = [d] ∧ (Wildcard.Token.oneOf false [.single c]).takes d = true := by
  simp only [Wildcard.takes_within, anyHolds_single]
  constructor
  · rintro rfl
    exact ⟨c, rfl, hc, rfl⟩
  · rintro ⟨_, rfl, -, rfl⟩
    rfl

theorem reads_escapedText (c : Char) : ∃ t, t.Single ∧ Wildcard.Reads (escapedText c) t ∧
    ∀ piece, piece = [c] ↔ ∃ d, piece = [d] ∧ t.takes d = true := by
  by_cases hspecial : c = '*' ∨ c = '?' ∨ c = '[' ∨ c = ']'
  · have hne : c ≠ '!' ∧ c ≠ '/' := by
      rcases hspecial with rfl | rfl | rfl | rfl <;> decide
    rw [escapedText, if_pos hspecial]
    have hclass (rest : List Char) : Wildcard.class? ([c] ++ ']' :: rest) =
        some (.oneOf false [.single c], rest) := Wildcard.class?_plain hne.1 List.not_mem_nil rest
    exact ⟨_, Wildcard.single_oneOf _ _, Wildcard.reads_class hclass, fun _ => takes_class hne.2⟩
  · rw [escapedText, if_neg hspecial]
    simp only [not_or] at hspecial
    exact ⟨.literal c, ⟨by simp, by simp⟩,
      Wildcard.reads_literal hspecial.1 hspecial.2.1 hspecial.2.2.1, fun _ => takes_literal⟩

/-- The text written for an element other than a star is read as one token wherever it stands. The
token takes what the element takes. -/
theorem ElementText.reads (h : ElementText text e) (hstar : e ≠ .star) :
    ∃ t, t.Single ∧ Wildcard.Reads e.text t ∧
      ∀ piece, e.Takes piece ↔ ∃ c, piece = [c] ∧ t.takes c = true := by
  have hclass (negated : Bool) {is : List Interval} (hne : is ≠ []) :
      ∃ t, t.Single ∧ Wildcard.Reads (classText negated is) t ∧
        ∀ piece, (Element.oneOf negated is).Takes piece ↔ ∃ c, piece = [c] ∧ t.takes c = true := by
    obtain ⟨t, ht, hreads, hslash⟩ := reads_classText negated hne
    refine ⟨t, ht, hreads, fun piece => ?_⟩
    simp only [Element.Takes, hreads.accepts ht]
    constructor
    · rintro ⟨c, rfl, -, hc⟩
      exact ⟨c, rfl, hc⟩
    · rintro ⟨c, rfl, hc⟩
      exact ⟨c, rfl, hslash c hc, hc⟩
  cases h with
  | star => exact absurd rfl hstar
  | any =>
    refine ⟨.any, ⟨by simp, by simp⟩, Wildcard.reads_any, fun piece => ?_⟩
    simp only [Element.Takes, Wildcard.Token.takes, bne_iff_ne]
  | plain _ h₁ h₂ h₃ =>
    exact ⟨.literal _, ⟨by simp, by simp⟩, Wildcard.reads_literal h₂ h₃ h₁,
      fun _ => takes_literal⟩
  | escaped => exact reads_escapedText _
  | oneOf _ hne _ => exact hclass false hne
  | noneOf _ hne => exact hclass true hne

/-- A token for one character takes a piece of the path, and the other tokens take the rest. -/
theorem covers_takes_piece {t : Wildcard.Token} (ht : t.Single)
    (htakes : ∀ piece, e.Takes piece ↔ ∃ c, piece = [c] ∧ t.takes c = true)
    (ts : List Wildcard.Token) (path : List Char) : Wildcard.covers (t :: ts) path = true ↔
      ∃ piece rest, piece ++ rest = path ∧ e.Takes piece ∧ Wildcard.covers ts rest = true := by
  rw [Wildcard.covers_takes_iff ht]
  simp only [htakes]
  constructor
  · rintro ⟨c, rest, rfl, hc, hrest⟩
    exact ⟨[c], rest, rfl, ⟨c, rfl, hc⟩, hrest⟩
  · rintro ⟨_, rest, rfl, ⟨c, rfl, hc⟩, hrest⟩
    exact ⟨c, rest, rfl, hc, hrest⟩

/-! ## Patterns -/

theorem PatternText.exists_text (h : PatternText cs es) : ∀ e ∈ es, ∃ text, ElementText text e := by
  induction h with
  | nil => simp
  | cons he _ ih =>
    intro f hf
    rcases List.mem_cons.mp hf with rfl | hf
    · exact ⟨_, he⟩
    · exact ih f hf

/-- If the first element is no star, the written text begins with none. -/
theorem head?_flatMap_text (hes : ∀ e ∈ es, ∃ text, ElementText text e)
    (hhead : es.head? ≠ some .star) : (es.flatMap Element.text).head? ≠ some '*' := by
  cases es with
  | nil => simp
  | cons e es =>
    obtain ⟨text, he⟩ := hes e (List.mem_cons_self ..)
    obtain ⟨t, ht, hreads, -⟩ := he.reads (by simpa using hhead)
    rw [List.flatMap_cons]
    exact hreads.head ht _

/-- The elements of a pattern are read back one by one, if no two stars stand side by side. -/
theorem exists_tokens (h : PatternText cs es)
    (hstars : es.IsChain fun e f => e ≠ .star ∨ f ≠ .star) :
    ∃ ts, (∀ before, Wildcard.tokensAfter before (es.flatMap Element.text) = some ts) ∧
      ∀ path, Wildcard.covers ts path = true ↔ Cuts es path := by
  induction h with
  | nil =>
    refine ⟨[], fun before => ?_, fun path => ?_⟩
    · rw [List.flatMap_nil, Wildcard.tokensAfter]
    · rw [Wildcard.covers_nil, List.isEmpty_iff, cuts_nil]
  | @cons text rest e es he hes ih =>
    obtain ⟨ts, hts, hcovers⟩ := ih hstars.of_cons
    by_cases hstar : e = .star
    · subst hstar
      -- The next element is no star, so the star is not read as one half of a `**`.
      have hhead : (es.flatMap Element.text).head? ≠ some '*' := by
        refine head?_flatMap_text hes.exists_text fun hnext => ?_
        obtain ⟨fs, rfl⟩ := List.head?_eq_some_iff.mp hnext
        exact (List.isChain_cons_cons.mp hstars).1.elim (absurd rfl) (absurd rfl)
      refine ⟨.star :: ts, fun before => ?_, fun path => ?_⟩
      · show Wildcard.tokensAfter before ('*' :: es.flatMap Element.text) = _
        rw [Wildcard.tokensAfter_star before hhead, hts]
        rfl
      · rw [Wildcard.covers_star_iff, cuts_cons]
        simp only [Element.Takes, hcovers]
    · obtain ⟨t, ht, hreads, htakes⟩ := he.reads hstar
      refine ⟨t :: ts, fun before => ?_, fun path => ?_⟩
      · rw [List.flatMap_cons, hreads, hts]
        rfl
      · rw [covers_takes_piece ht htakes, cuts_cons]
        simp only [hcovers]

end Shell

namespace Pattern

open Shell

/-- **What a pattern covers.** A well-formed pattern spells its elements in one way. If no two of
them are stars side by side, its wildcard text is well formed too, and it covers the paths that are
made of pieces, one for each element. -/
theorem covers_iff_pieces {p : String} {text : List Char}
    (h : wildcardText? p.toList = some text) :
    ∃ es, (∀ fs, PatternText p.toList fs ↔ fs = es) ∧
      (es.IsChain (fun e f => e ≠ .star ∨ f ≠ .star) →
        (∃ ts, Wildcard.tokens? text = some ts) ∧
        ∀ path : String, (Pattern.ofString p).covers path = true ↔
          ∃ pieces, pieces.flatten = path.toList ∧ List.Forall₂ Element.Takes es pieces) := by
  obtain ⟨es, hes, rfl⟩ := Option.map_eq_some_iff.mp h
  refine ⟨es, fun fs => ?_, fun hstars => ?_⟩
  · rw [← elements?_iff, hes, Option.some_inj]
    exact eq_comm
  · obtain ⟨ts, hts, hcovers⟩ := exists_tokens (elements?_iff.mp hes) hstars
    have hread : Wildcard.tokens? (es.flatMap Element.text) = some ts := hts none
    refine ⟨⟨ts, hread⟩, fun path => ?_⟩
    have hpattern : (Pattern.ofString p).tokens? = some ts := by
      show (wildcardText? p.toList).bind Wildcard.tokens? = _
      rw [h]
      exact hread
    rw [covers, hpattern]
    exact hcovers path.toList

/-- The pattern `/*\*[!\]]?]`: a star before an escaped one, a class of `!` and `]`, and a stray `]`. -/
theorem covers_with_escapes :
    (∃ ts, Wildcard.tokens? "/*[*][]!]?]".toList = some ts) ∧
    ∀ path : String, (Pattern.ofString "/*\\*[!\\]]?]").covers path = true ↔
      ∃ pieces, pieces.flatten = path.toList ∧ List.Forall₂ Element.Takes
        [.plain '/', .star, .escaped '*', .oneOf false [.single '!', .single ']'], .any, .plain ']']
        pieces := by
  have hread : elements? "/*\\*[!\\]]?]".toList = some [.plain '/', .star, .escaped '*',
      .oneOf false [.single '!', .single ']'], .any, .plain ']'] := by decide +kernel
  have htext : wildcardText? "/*\\*[!\\]]?]".toList = some "/*[*][]!]?]".toList := by
    decide +kernel
  obtain ⟨es, hunique, hcovers⟩ := covers_iff_pieces htext
  obtain rfl := (hunique _).mp (elements?_iff.mp hread)
  exact hcovers (by simp)

end Pattern
end FileWarden
