import FileWarden.Files
import FileWarden.Text.Blank

/-!
# Files on disk

A directory tree, and how a path is walked in it: from the root if it starts with a slash, otherwise
from the working directory, which may lie anywhere in the tree.

* A directory on the way must exist, a file on the way is refused, and so is a name of more than 255
  bytes or a path of more than 4095.
* `Disk.read` opens a file; `Disk.append` makes the directories above a file first, each by a path
  of its own, so that these may be made although the path of the file is too long.
* A slash at the end asks for a directory: no file is read there, and none is made or added to.
-/

namespace FileWarden

/-- What a path of the tree leads to. -/
inductive Node where
  | directory
  | file (bytes : List UInt8)
  deriving DecidableEq, Repr

/-- A directory tree: its nodes, each with the names that lead to it from the root, and the names
that lead to the working directory, which exists and needs no node. -/
structure Disk where
  nodes : List (List String × Node)
  home : List String
  deriving DecidableEq, Repr

namespace Disk

/-- Why a step in the tree fails. -/
inductive Failure where
  | missing
  | exists
  | notADirectory
  | isADirectory
  | nameTooLong
  | nulInName
  deriving DecidableEq, Repr

/-- The error that a caller sees for a failure. -/
def Failure.error : Failure → FileError
  | .missing => .io .notFound "No such file or directory (os error 2)"
  | .exists => .io .alreadyExists "File exists (os error 17)"
  | .notADirectory => .io .notADirectory "Not a directory (os error 20)"
  | .isADirectory => .io .isADirectory "Is a directory (os error 21)"
  | .nameTooLong => .io .invalidFilename "File name too long (os error 36)"
  | .nulInName => .io .invalidInput "file name contained an unexpected NUL byte"

/-- The tree that holds an empty working directory and those above it. -/
def empty (home : List String) : Disk := ⟨[], home⟩

/-- The node that names lead to. -/
def node? (d : Disk) (names : List String) : Option Node :=
  if names.isPrefixOf d.home then some .directory else d.nodes.lookup names

/-- Puts a node into the place of the one that was there, or at the end. -/
def put (d : Disk) (names : List String) (n : Node) : Disk :=
  if d.nodes.any (·.1 = names) then
    { d with nodes := d.nodes.map fun m => if m.1 = names then (names, n) else m }
  else { d with nodes := d.nodes ++ [(names, n)] }

/-! ## Walking -/

/-- A part of a path between slashes, and how many bytes of the path come up to its end. -/
structure Part where
  name : String
  reach : Nat
  deriving DecidableEq, Repr

/-- The parts that are not empty, of a path that is cut at its slashes, from a place in it on. -/
def Part.list (start : Nat) : List (List Char) → List Part
  | [] => []
  | cs :: rest =>
    let reach := start + Utf8.size cs
    if cs.isEmpty then list (reach + 1) rest
    else ⟨String.ofList cs, reach⟩ :: list (reach + 1) rest

/-- A path: its parts, its length in bytes, and whether it starts and ends in a slash. -/
structure Route where
  parts : List Part
  size : Nat
  fromRoot : Bool
  slashAtEnd : Bool
  deriving DecidableEq, Repr

/-- The route of a path. -/
def Route.ofPath (path : String) : Route :=
  ⟨Part.list 0 (Text.splitOn '/' path.toList), path.utf8ByteSize, path.toList.head? = some '/',
    path.toList.getLast? = some '/'⟩

/-- Refuses what cannot be a path, whatever the tree: a text of these parts and so many bytes. -/
def checkPath (parts : List Part) (size : Nat) : Except Failure Unit :=
  if parts.any fun p => p.name.toList.contains '\x00' then .error .nulInName
  else if size = 0 then .error .missing
  else if 4096 ≤ size then .error .nameTooLong
  else .ok ()

/-- The directory that a route starts from. -/
def start (d : Disk) (route : Route) : List String := if route.fromRoot then [] else d.home

/-- The place that a part leads to from a directory: a directory, a file, or a name that is free. -/
def step (d : Disk) (dir : List String) (part : String) :
    Except Failure (List String × Option Node) :=
  if part = "." then .ok (dir, some .directory)
  else if part = ".." then .ok (dir.dropLast, some .directory)
  else if 255 < part.utf8ByteSize then .error .nameTooLong
  else .ok (dir ++ [part], d.node? (dir ++ [part]))

/-- Walks the parts of a route from a directory. All but the last must lead to directories. -/
def walk (d : Disk) : List String → List Part → Except Failure (List String × Option Node)
  | dir, [] => .ok (dir, some .directory)
  | dir, part :: parts => do
    let (names, node) ← d.step dir part.name
    if parts.isEmpty then return (names, node)
    else match node with
      | some .directory => d.walk names parts
      | some (.file _) => .error .notADirectory
      | none => .error .missing

/-! ## Reading -/

/-- The bytes of the file at the end of a route. -/
def bytes (d : Disk) (path : String) : Except Failure (List UInt8) := do
  let route := Route.ofPath path
  checkPath route.parts route.size
  match ← d.walk (d.start route) route.parts with
  | (_, some (.file bytes)) => if route.slashAtEnd then .error .notADirectory else .ok bytes
  | (_, some .directory) => .error .isADirectory
  | (_, none) => .error .missing

/-- The error for a file whose bytes are no text. -/
def notText : FileError := .io .invalidData "stream did not contain valid UTF-8"

/-- Reads the text of a file. -/
def read (d : Disk) (path : String) : Except FileError String :=
  match d.bytes path with
  | .error f => .error f.error
  | .ok bytes => match Utf8.decode bytes with
    | .ok cs => .ok (String.ofList cs)
    | .error _ => .error notText

/-- The text of a file, if it can be read. -/
def text? (d : Disk) (path : String) : Option String := (d.read path).toOption

/-! ## Writing -/

/-- Makes the directory that parts of so many bytes lead to, unless there is one. Those above it
must exist. -/
def makeDirectory (d : Disk) (start : List String) (parts : List Part) (size : Nat) :
    Except Failure Disk := do
  checkPath parts size
  match ← d.walk start parts with
  | (_, some .directory) => return d
  | (_, some (.file _)) => .error .exists
  | (names, none) => return d.put names .directory

/-- Makes a directory, whose parts are listed from the last one up, and if that fails because one
above it is missing, that one first. -/
def makeDirectories (d : Disk) (start : List String) : List Part → Except Failure Unit × Disk
  | [] => (.ok (), d)
  | part :: up =>
    match d.makeDirectory start (part :: up).reverse part.reach with
    | .ok d => (.ok (), d)
    | .error .missing =>
      match makeDirectories d start up with
      | (.ok (), d) => match d.makeDirectory start (part :: up).reverse part.reach with
        | .ok d => (.ok (), d)
        | .error f => (.error f, d)
      | failed => failed
    | .error f => (.error f, d)

/-- The parts above the last one that counts; a `.` inside a route does not. -/
def above (parts : List Part) : List Part :=
  match parts with
  | [] => []
  | first :: rest => (first :: rest.filter (·.name ≠ ".")).dropLast

/-- Adds bytes to the file at the end of a route. What stands before a slash at the end is not
looked at: no file can be made there. -/
def appendAt (d : Disk) (route : Route) (bytes : List UInt8) : Except Failure Disk := do
  checkPath route.parts route.size
  let parts := if route.slashAtEnd then route.parts.dropLast else route.parts
  match ← d.walk (d.start route) parts with
  | (_, some .directory) => .error .isADirectory
  | (names, some (.file old)) =>
    if route.slashAtEnd then .error .notADirectory else return d.put names (.file (old ++ bytes))
  | (names, none) =>
    if route.slashAtEnd then .error .missing else return d.put names (.file bytes)

/-- Adds bytes to the end of a file; the directories above it are made first. -/
def append (d : Disk) (path : String) (bytes : List UInt8) : Except FileError Unit × Disk :=
  let route := Route.ofPath path
  match d.makeDirectories (d.start route) (above route.parts).reverse with
  | (.error f, d) => (.error f.error, d)
  | (.ok (), d) => match d.appendAt route bytes with
    | .ok d => (.ok (), d)
    | .error f => (.error f.error, d)

instance : FileStore Disk := ⟨read, append⟩

end Disk
end FileWarden
