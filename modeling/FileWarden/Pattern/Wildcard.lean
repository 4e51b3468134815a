import FileWarden.Pattern.Interval

/-!
# Wildcard texts

The wildcard dialect for whole paths.

* `?` is one character, `*` any run, `[abc]`, `[a-z]` and `[!a-z]` are classes. None takes a `/`.
* `**` is a whole component of the text. It takes nothing or any run that ends after a `/`; at the
  end it takes everything. The `/` after it belongs to it.
* In a class, `]` is a member in first place only, and `-` at the edges only. There is no escape.

`tokens?` reads a wildcard text, and `covers` says whether tokens take a whole path. It computes,
for each suffix of the path at once, whether the tokens take it (`verdicts`), so a path of `n`
characters and `k` tokens cost `n * k` steps.
-/

namespace FileWarden
namespace Wildcard

/-- One element of a wildcard text. -/
inductive Token where
  /-- The character itself. -/
  | literal (c : Char)
  /-- One character other than `/`. -/
  | any
  /-- A run of characters other than `/`. -/
  | star
  /-- Whole components: nothing, a run that ends after a `/`, or everything at the end. -/
  | components
  /-- One character other than `/`, in the intervals or outside them. -/
  | oneOf (negated : Bool) (members : List Interval)
  deriving DecidableEq, Repr

/-! ## Reading -/

/-- The members that a class body stands for: `a-z` is a range, anything else a single. Ranges are
taken from the left. -/
def members : List Char → List Interval
  | lo :: '-' :: hi :: cs => ⟨lo, hi⟩ :: members cs
  | c :: cs => .single c :: members cs
  | [] => []

/-- The class that a text begins with, after its `[`, and the text after its `]`. The first member
is taken as it is, so that a `]` can be one. -/
def class? : List Char → Option (Token × List Char)
  | '!' :: c :: cs =>
    match cs.dropWhile (· ≠ ']') with
    | _ :: rest => some (.oneOf true (members (c :: cs.takeWhile (· ≠ ']'))), rest)
    | [] => none
  | '!' :: [] => none
  | c :: cs =>
    match cs.dropWhile (· ≠ ']') with
    | _ :: rest => some (.oneOf false (members (c :: cs.takeWhile (· ≠ ']'))), rest)
    | [] => none
  | [] => none

theorem length_of_class? {cs rest : List Char} {t : Token} (h : class? cs = some (t, rest)) :
    rest.length < cs.length := by
  have shorter {p : Char → Bool} {d : Char} {ds es : List Char} (h : ds.dropWhile p = d :: es) :
      es.length < ds.length := by
    have := (List.dropWhile_sublist p (l := ds)).length_le
    rw [h, List.length_cons] at this
    omega
  unfold class? at h
  split at h
  · split at h
    · rename_i hd
      cases h
      have := shorter hd
      simp only [List.length_cons]; omega
    · cases h
  · cases h
  · split at h
    · rename_i hd
      cases h
      have := shorter hd
      simp only [List.length_cons]; omega
    · cases h
  · cases h

/-- The tokens of a wildcard text; `before` is the character in front of it. A text is refused if
a class is not closed, if more than two stars stand together, or if two do that are no component. -/
def tokensAfter (before : Option Char) : List Char → Option (List Token)
  | [] => some []
  | '*' :: '*' :: cs =>
    if before = none ∨ before = some '/' then
      match cs with
      | [] => some [.components]
      | '/' :: cs => (tokensAfter (some '/') cs).map (.components :: ·)
      | _ => none
    else none
  | '*' :: cs => (tokensAfter (some '*') cs).map (.star :: ·)
  | '?' :: cs => (tokensAfter (some '?') cs).map (.any :: ·)
  | '[' :: cs =>
    match h : class? cs with
    | some (t, rest) =>
      have := length_of_class? h
      (tokensAfter (some ']') rest).map (t :: ·)
    | none => none
  | c :: cs => (tokensAfter (some c) cs).map (.literal c :: ·)
  termination_by cs => cs.length

/-- The tokens of a wildcard text, if it is well formed. -/
def tokens? (cs : List Char) : Option (List Token) := tokensAfter none cs

/-! ## Covering a path -/

/-- Whether a token that takes one character takes this one. -/
def Token.takes : Token → Char → Bool
  | .literal l, c => l == c
  | .any, c => c != '/'
  | .oneOf negated members, c => c != '/' && (negated != Interval.anyHolds members c)
  | .star, _ => false
  | .components, _ => false

/-- The verdicts with a star in front, from those without: it stops here, or takes a character and
goes on. -/
def starVerdicts : List Char → List Bool → List Bool
  | c :: cs, v :: vs =>
    let rest := starVerdicts cs vs
    (v || (c != '/' && rest.headD false)) :: rest
  | _, vs => vs

/-- The verdicts with `**` in front, from those without, and whether it can go on to a later `/`
from the start of the text. -/
def componentVerdicts : List Char → List Bool → List Bool × Bool
  | c :: cs, v :: vs =>
    let (rest, later) := componentVerdicts cs vs
    let here := if c = '/' then rest.headD false else later
    ((v || here) :: rest, here)
  | _, vs => (vs, false)

/-- For each suffix of a text, the whole one first, whether the tokens take it. -/
def verdicts : List Token → List Char → List Bool
  | [], cs => cs.map (fun _ => false) ++ [true]
  | .star :: ts, cs => starVerdicts cs (verdicts ts cs)
  | [.components], cs => cs.map (fun _ => true) ++ [true]
  | .components :: ts, cs => (componentVerdicts cs (verdicts ts cs)).1
  | t :: ts, cs => List.zipWith (fun c v => t.takes c && v) cs (verdicts ts cs).tail ++ [false]

/-- Whether tokens take a whole text. -/
def covers (ts : List Token) (cs : List Char) : Bool := (verdicts ts cs).headD false

end Wildcard
end FileWarden
