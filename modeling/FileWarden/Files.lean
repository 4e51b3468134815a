import FileWarden.Text.Utf8

/-!
# Files

What the program asks of files: to read a text, and to add bytes at the end. `FileStore` is any
state that answers these; a failed addition may leave its mark, such as a new directory.
-/

namespace FileWarden

/-- Why a file operation was refused. -/
inductive FileErrorKind where
  | notFound
  | permissionDenied
  | isADirectory
  | notADirectory
  | alreadyExists
  | invalidData
  | invalidFilename
  | invalidInput
  | other
  deriving DecidableEq, Repr

/-- A failed file operation: refused by the store, or refused because of what was found. -/
inductive FileError where
  | io (kind : FileErrorKind) (text : String)
  | path (text : String)
  deriving DecidableEq, Repr

/-- The words for a failed file operation. -/
def FileError.message : FileError → String
  | .io _ text => "IO error: " ++ text
  | .path text => "path error: " ++ text

/-- A state that holds files. -/
class FileStore (σ : Type) where
  /-- The text of a file. -/
  read : σ → String → Except FileError String
  /-- Adds bytes to the end of a file, which is made if it is missing. -/
  append : σ → String → List UInt8 → Except FileError Unit × σ

end FileWarden
