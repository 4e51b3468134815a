import FileWarden.Files
import FileWarden.Files.Path

/-!
# Files in memory

A list of files, each with the components of its path. Two paths name the same file if their
components are equal. There are no directories, and a path needs none to hold a file.
-/

namespace FileWarden

/-- Files in memory, and whether the program may change them. -/
structure MemoryFiles where
  files : List (List Component × List UInt8)
  readOnly : Bool
  deriving DecidableEq, Repr

namespace MemoryFiles

/-- The bytes of a file with these components. -/
def lookup (key : List Component) : List (List Component × List UInt8) → Option (List UInt8)
  | [] => none
  | (k, bytes) :: rest => if key = k then some bytes else lookup key rest

/-- Puts the bytes of a file in the place of those it had, or at the end. -/
def store (key : List Component) (bytes : List UInt8) :
    List (List Component × List UInt8) → List (List Component × List UInt8)
  | [] => [(key, bytes)]
  | (k, old) :: rest => if key = k then (k, bytes) :: rest else (k, old) :: store key bytes rest

/-- The bytes of a file. -/
def get? (m : MemoryFiles) (path : String) : Option (List UInt8) :=
  lookup (Component.ofPath path) m.files

/-- Gives a file these bytes, whether the program may change it or not. -/
def put (m : MemoryFiles) (path : String) (bytes : List UInt8) : MemoryFiles :=
  { m with files := store (Component.ofPath path) bytes m.files }

/-- The text of a file, if it has one. -/
def text? (m : MemoryFiles) (path : String) : Option String :=
  (m.get? path).bind fun bytes => (Utf8.decode bytes).toOption.map String.ofList

/-- Reads the text of a file. -/
def read (m : MemoryFiles) (path : String) : Except FileError String :=
  match m.get? path with
  | none => .error (.io .notFound ("file not found: " ++ path))
  | some bytes => match Utf8.decode bytes with
    | .ok cs => .ok (String.ofList cs)
    | .error f => .error (.path ("invalid utf8: " ++ f.message))

/-- Adds bytes to the end of a file. -/
def append (m : MemoryFiles) (path : String) (bytes : List UInt8) :
    Except FileError Unit × MemoryFiles :=
  if m.readOnly then (.error (.io .permissionDenied ("read-only filesystem: " ++ path)), m)
  else (.ok (), m.put path ((m.get? path).getD [] ++ bytes))

instance : FileStore MemoryFiles := ⟨read, append⟩

theorem lookup_store (key k : List Component) (bytes : List UInt8)
    (files : List (List Component × List UInt8)) :
    lookup k (store key bytes files) = if k = key then some bytes else lookup k files := by
  induction files with
  | nil => simp [store, lookup]
  | cons f files ih =>
    obtain ⟨j, old⟩ := f
    simp only [store]
    split
    · rename_i h
      subst h
      simp only [lookup]
      split <;> rfl
    · rename_i h
      simp only [lookup, ih]
      split
      · rename_i hk
        subst hk
        rw [if_neg (Ne.symm h)]
      · rfl

end MemoryFiles
end FileWarden
