import FileWarden.Text.Blank

/-!
# Paths

A path is a list of components. Repeated slashes, a slash at the end and `.` inside a path make no
difference; a `.` in front is a component of its own, and `..` always is.
-/

namespace FileWarden

/-- A component of a path. -/
inductive Component where
  | root
  | here
  | up
  | name (s : String)
  deriving DecidableEq, Repr

namespace Component

/-- The component of a part of a path, if it counts. -/
def ofPart (part : List Char) : Option Component :=
  if part = [] ∨ part = ['.'] then none
  else if part = ['.', '.'] then some .up
  else some (.name (String.ofList part))

/-- The components of a path. -/
def ofPath (path : String) : List Component :=
  match path.toList with
  | '/' :: cs => .root :: (Text.splitOn '/' cs).filterMap ofPart
  | cs =>
    match Text.splitOn '/' cs with
    | ['.'] :: parts => .here :: parts.filterMap ofPart
    | parts => parts.filterMap ofPart

end Component
end FileWarden
