import FileWarden.Pattern.Wildcard

/-!
# Shell patterns

Shell patterns, and the wildcard texts that mean the same.

* `elements?` reads a pattern: stars, question marks, classes, and characters, escaped or plain.
* `Element.text` writes one element in the wildcard dialect, which has no escapes, negates with `!`
  and reads `]` and `-` as members at the edges of a class only.
* `classText` arranges the members of a class so that each is read back as a member.
-/

namespace FileWarden
namespace Shell

/-- One element of a shell pattern. -/
inductive Element where
  | star
  | any
  | plain (c : Char)
  | escaped (c : Char)
  | oneOf (negated : Bool) (members : List Interval)
  deriving DecidableEq, Repr

/-! ## Reading -/

/-- One end of a class member: an escaped character, or a plain one that is not `]` or `-`. -/
def atom? : List Char → Option (Char × List Char)
  | '\\' :: c :: cs => some (c, cs)
  | '\\' :: [] => none
  | ']' :: _ => none
  | '-' :: _ => none
  | c :: cs => some (c, cs)
  | [] => none

/-- A class member: one character, or two with a `-` between them. -/
def member? (cs : List Char) : Option (Interval × List Char) :=
  match atom? cs with
  | some (lo, '-' :: rest) => (atom? rest).map fun (hi, rest) => (⟨lo, hi⟩, rest)
  | some (c, rest) => some (.single c, rest)
  | none => none

theorem length_of_atom? {cs rest : List Char} {c : Char} (h : atom? cs = some (c, rest)) :
    rest.length < cs.length := by
  unfold atom? at h
  split at h <;> cases h <;> simp only [List.length_cons] <;> omega

theorem length_of_member? {cs rest : List Char} {i : Interval} (h : member? cs = some (i, rest)) :
    rest.length < cs.length := by
  unfold member? at h
  split at h
  · rename_i lo ds hd
    have h1 := length_of_atom? hd
    simp only [Option.map_eq_some_iff, Prod.mk.injEq, Prod.exists] at h
    obtain ⟨hi, es, he, -, rfl⟩ := h
    have h2 := length_of_atom? he
    simp only [List.length_cons] at h1
    omega
  · rename_i hd
    cases h
    exact length_of_atom? hd
  · cases h

/-- The members of a class up to its `]`, and the text after it. A `]` closes the class only if
`some` member was read. -/
def members? (nonempty : Bool) (cs : List Char) : Option (List Interval × List Char) :=
  match nonempty, cs with
  | true, ']' :: rest => some ([], rest)
  | _, cs =>
    match h : member? cs with
    | some (i, rest) =>
      have := length_of_member? h
      (members? true rest).map fun (is, rest) => (i :: is, rest)
    | none => none
  termination_by cs.length

/-- The class that a text begins with, after its `[`. A `^` in front negates it. -/
def class? : List Char → Option (Element × List Char)
  | '^' :: cs => (members? false cs).map fun (is, rest) => (.oneOf true is, rest)
  | cs => (members? false cs).map fun (is, rest) => (.oneOf false is, rest)

theorem length_of_members? {nonempty : Bool} {cs rest : List Char} {is : List Interval}
    (h : members? nonempty cs = some (is, rest)) : rest.length < cs.length := by
  fun_induction members? nonempty cs generalizing is rest with
  | case1 => cases h; simp
  | case2 b cs _ i ds hm hlt ih =>
    simp only [Option.map_eq_some_iff, Prod.mk.injEq, Prod.exists] at h
    obtain ⟨js, es, he, -, rfl⟩ := h
    have := ih he
    omega
  | case3 => cases h

theorem length_of_class? {cs rest : List Char} {e : Element} (h : class? cs = some (e, rest)) :
    rest.length < cs.length := by
  unfold class? at h
  split at h
  · simp only [Option.map_eq_some_iff, Prod.mk.injEq, Prod.exists] at h
    obtain ⟨js, es, he, -, rfl⟩ := h
    have := length_of_members? he
    simp only [List.length_cons]
    omega
  · simp only [Option.map_eq_some_iff, Prod.mk.injEq, Prod.exists] at h
    obtain ⟨js, es, he, -, rfl⟩ := h
    exact length_of_members? he

/-- The elements of a shell pattern. It is malformed if it ends in a lone `\`, or if a class is
empty, not closed, or holds a plain `-` that makes no range. -/
def elements? (cs : List Char) : Option (List Element) :=
  match cs with
  | [] => some []
  | '\\' :: c :: cs => (elements? cs).map (.escaped c :: ·)
  | '\\' :: [] => none
  | '[' :: cs =>
    match h : class? cs with
    | some (e, rest) =>
      have := length_of_class? h
      (elements? rest).map (e :: ·)
    | none => none
  | '*' :: cs => (elements? cs).map (.star :: ·)
  | '?' :: cs => (elements? cs).map (.any :: ·)
  | c :: cs => (elements? cs).map (.plain c :: ·)
  termination_by cs.length

/-! ## Writing -/

/-- An escaped character; one that the wildcard dialect would read otherwise stands in a class of
its own. -/
def escapedText (c : Char) : List Char :=
  if c = '*' ∨ c = '?' ∨ c = '[' ∨ c = ']' then ['[', c, ']'] else [c]

/-- Intervals with the same characters as one interval, in which `]` and `-` stand only as singles.
An empty interval stays empty and does not mention `]`, `-` or `!`. -/
def split (i : Interval) : List Interval :=
  let special (c : Char) : Bool := c = ']' || c = '-' || c = '!'
  if i.hi < i.lo then
    if special i.lo || special i.hi then [⟨'b', 'a'⟩] else [i]
  else if i.lo = i.hi then [i]
  else
    let (bracketLo, lo) := if i.lo = ']' then ([.single ']'], '^') else ([], i.lo)
    let (bracketHi, hi) := if i.hi = ']' then ([.single ']'], '\\') else ([], i.hi)
    let (dashLo, lo) := if lo = '-' then ([.single '-'], '.') else ([], lo)
    let (dashHi, hi) := if hi = '-' then ([.single '-'], ',') else ([], hi)
    bracketLo ++ bracketHi ++ dashLo ++ dashHi ++ (if lo ≤ hi then [⟨lo, hi⟩] else [])

/-- The place of a member in a class: `]` first, those that begin with `!` late, `-` last. -/
def rank (i : Interval) : Nat :=
  if i.lo = ']' then 0
  else if i = .single '-' then 3
  else if i.lo = '!' then 2
  else 1

/-- Members by rank, those of one rank in the order given. -/
def byRank (is : List Interval) : List Interval :=
  [0, 1, 2, 3].flatMap fun r => is.filter (rank · = r)

/-- A list with each run of equal items cut to one. -/
def squeeze : List Interval → List Interval
  | i :: j :: is => if i = j then squeeze (j :: is) else i :: squeeze (j :: is)
  | is => is

/-- The members of a class, split, by rank, and without repeats side by side. -/
def parts (is : List Interval) : List Interval := squeeze (byRank (is.flatMap split))

/-- The parts of a class that would begin with `!`, another one moved to the front. There is none if
`!` is the only part, and then the list is empty. -/
def bangMoved (is : List Interval) : List Interval :=
  let bang := Interval.single '!'
  let others := is.filter (· ≠ bang)
  let others := match others with
    | i :: _ => if i.lo = '!' then .single i.hi :: others else others
    | [] => others
  if others.isEmpty || ! is.contains bang then others
  else others.takeWhile (· ≠ .single '-') ++ bang :: others.dropWhile (· ≠ .single '-')

/-- The members of a class in the order in which they are written. In a class that is not negated and
would begin with `!`, another member goes to the front. -/
def arranged (negated : Bool) (is : List Interval) : List Interval :=
  let is := parts is
  if negated || is.head?.map (·.lo) ≠ some '!' then is else bangMoved is

/-- A member as it is written. -/
def memberText (i : Interval) : List Char := if i.lo = i.hi then [i.lo] else [i.lo, '-', i.hi]

/-- A class as it is written; the class of `!` alone is the character `!`. -/
def classText (negated : Bool) (is : List Interval) : List Char :=
  match arranged negated is with
  | [] => ['!']
  | js => '[' :: (if negated then ['!'] else []) ++ js.flatMap memberText ++ [']']

/-- An element as it is written. -/
def Element.text : Element → List Char
  | .star => ['*']
  | .any => ['?']
  | .plain c => [c]
  | .escaped c => escapedText c
  | .oneOf negated is => classText negated is

/-- The wildcard text of a shell pattern, if the pattern is well formed. -/
def wildcardText? (cs : List Char) : Option (List Char) :=
  (elements? cs).map (·.flatMap Element.text)

end Shell
end FileWarden
