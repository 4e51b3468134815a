import FileWarden.Pattern.Shell
import FileWarden.Text.Blank

/-!
# Policies

* A `Pattern` matches a path that it covers as a shell pattern, and a path that holds its text. A
  malformed shell pattern matches by its text alone.
* A `Policy` is a list of patterns in order of precedence.
-/

namespace FileWarden

/-- A pattern: its text, and its tokens if it is a well-formed shell pattern. -/
structure Pattern where
  text : String
  tokens? : Option (List Wildcard.Token)
  deriving DecidableEq, Repr

namespace Pattern

/-- The pattern with this text. -/
def ofString (text : String) : Pattern :=
  ⟨text, (Shell.wildcardText? text.toList).bind Wildcard.tokens?⟩

/-- Whether a path is covered by the shell pattern. -/
def covers (p : Pattern) (path : String) : Bool :=
  p.tokens?.any (Wildcard.covers · path.toList)

/-- Whether a pattern matches a path. -/
def matchesPath (p : Pattern) (path : String) : Bool :=
  p.covers path || Text.contains p.text.toList path.toList

end Pattern

/-- The patterns whose paths are disallowed. -/
structure Policy where
  patterns : List Pattern
  deriving DecidableEq, Repr

namespace Policy

/-- The policy of some pattern texts. -/
def ofTexts (texts : List String) : Policy := ⟨texts.map Pattern.ofString⟩

/-- The pattern texts of a policy. -/
def texts (p : Policy) : List String := p.patterns.map (·.text)

/-- The text of the first pattern that matches a path. -/
def firstMatch? (p : Policy) (path : String) : Option String :=
  (p.patterns.find? (·.matchesPath path)).map (·.text)

/-- Whether a policy disallows a path. -/
def disallows (p : Policy) (path : String) : Bool := p.patterns.any (·.matchesPath path)

@[simp] theorem texts_ofTexts (texts : List String) : (ofTexts texts).texts = texts := by
  simp only [Policy.texts, ofTexts, List.map_map]
  exact (List.map_congr_left fun _ _ => rfl).trans (List.map_id _)

end Policy
end FileWarden
