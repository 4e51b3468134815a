import FileWarden.Text.Blank

/-!
# Lists of patterns as text

* `commaTexts` reads a list with commas between its entries.
* `lineTexts` reads a list with one entry a line; a line that begins with `#` is a comment.

Entries lose the blanks around them, and those that are empty then do not count.
-/

namespace FileWarden
namespace Policy

/-- The entries of a list with commas between them. -/
def commaTexts (s : String) : List String :=
  (((Text.splitOn ',' s.toList).map Text.trim).filter (· ≠ [])).map String.ofList

/-- Whether a trimmed line holds an entry: it is not empty and no comment. -/
def isEntry (line : List Char) : Bool := line ≠ [] && line.head? ≠ some '#'

/-- The entries of a list with one a line. -/
def lineTexts (s : String) : List String :=
  (((Text.splitOn '\n' s.toList).map Text.trim).filter isEntry).map String.ofList

end Policy
end FileWarden
