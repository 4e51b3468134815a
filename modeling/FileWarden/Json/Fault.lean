import FileWarden.Decimal.Shortest
import FileWarden.Text.Quoted
import FileWarden.Text.Utf8

/-!
# What can be wrong with a JSON text

* `Reason` names each fault and `Reason.message` words it.
* `Fault` is a reason with the place where reading stopped; `Error` is what a caller sees, with the
  place as a line and a column.
* `position` counts lines and bytes up to a place.
-/

namespace FileWarden
namespace Json

/-- How a number with a fraction or an exponent is written: positionally from `0.00001` up to
sixteen digits before the point, otherwise with an exponent that has a sign. -/
def numberLayout : Decimal.Layout := ⟨-5, 15⟩

/-- A JSON number: a whole number of at most 64 bits, or the bits of a double. -/
inductive Number where
  | whole (n : Int)
  | double (bits : UInt64)
  deriving DecidableEq, Repr

/-- The text of a double. -/
def doubleText (bits : UInt64) : String :=
  match Decimal.Double.ofBits bits with
  | some x => numberLayout.text x.negative (Decimal.shortest x)
  | none => "null"

/-- What stands in a place where something else is needed. -/
inductive Found where
  | null
  | bool (b : Bool)
  | number (n : Number)
  | string (s : String)
  | sequence
  | map
  deriving DecidableEq, Repr

/-- Names the kind of value, and the value itself if it is short. -/
def Found.message : Found → String
  | .null => "null"
  | .bool b => "boolean `" ++ (if b then "true" else "false") ++ "`"
  | .number (.whole n) => "integer `" ++ toString n ++ "`"
  | .number (.double bits) => "floating point `" ++ doubleText bits ++ "`"
  | .string s => "string " ++ Text.quote s
  | .sequence => "sequence"
  | .map => "map"

/-- Why a text is not JSON, or not the JSON of a certain type. -/
inductive Reason where
  | endInValue
  | endInString
  | endInObject
  | endInList
  | expectedValue
  | expectedLiteral
  | expectedColon
  | expectedCommaInObject
  | expectedCommaInList
  | keyNotString
  | trailingComma
  | trailingCharacters
  | invalidNumber
  | numberOutOfRange
  | invalidEscape
  | controlCharacter
  | loneSurrogate
  | unfinishedSurrogate
  | nestedTooDeep
  | missingField (name : String)
  | duplicateField (name : String)
  | wrongType (found : Found) (expected : String)
  | wrongValue (found : Found) (expected : String)
  | wrongLength (length : Nat) (expected : String)
  | unknownVariant (name : String) (known : List String)
  deriving DecidableEq, Repr

/-- Whether the text ended too early, is not JSON, or is JSON of another type. -/
inductive Category where
  | ended
  | syntactic
  | data
  deriving DecidableEq, Repr

namespace Reason

/-- The category of a reason. -/
def category : Reason → Category
  | endInValue | endInString | endInObject | endInList => .ended
  | missingField _ | duplicateField _ | wrongType _ _ | wrongValue _ _ | wrongLength _ _
  | unknownVariant _ _ => .data
  | _ => .syntactic

/-- A name between accents. -/
def named (s : String) : String := "`" ++ s ++ "`"

/-- The words for a reason. -/
def message : Reason → String
  | endInValue => "EOF while parsing a value"
  | endInString => "EOF while parsing a string"
  | endInObject => "EOF while parsing an object"
  | endInList => "EOF while parsing a list"
  | expectedValue => "expected value"
  | expectedLiteral => "expected ident"
  | expectedColon => "expected `:`"
  | expectedCommaInObject => "expected `,` or `\x7d`"
  | expectedCommaInList => "expected `,` or `]`"
  | keyNotString => "key must be a string"
  | trailingComma => "trailing comma"
  | trailingCharacters => "trailing characters"
  | invalidNumber => "invalid number"
  | numberOutOfRange => "number out of range"
  | invalidEscape => "invalid escape"
  | controlCharacter => "control character (\\u0000-\\u001F) found while parsing a string"
  | loneSurrogate => "lone leading surrogate in hex escape"
  | unfinishedSurrogate => "unexpected end of hex escape"
  | nestedTooDeep => "recursion limit exceeded"
  | missingField name => "missing field " ++ named name
  | duplicateField name => "duplicate field " ++ named name
  | wrongType found expected => "invalid type: " ++ found.message ++ ", expected " ++ expected
  | wrongValue found expected => "invalid value: " ++ found.message ++ ", expected " ++ expected
  | wrongLength n expected => "invalid length " ++ toString n ++ ", expected " ++ expected
  | unknownVariant name known =>
    "unknown variant " ++ named name ++ ", expected " ++
      String.intercalate " or " (known.map named)

end Reason

/-- A reason with the text that was unread when it was found, and how many bytes of that text still
count as read. -/
structure Fault where
  reason : Reason
  unread : List Char
  ahead : Nat
  deriving DecidableEq, Repr

/-- A fault just before the unread text. -/
def Fault.here (reason : Reason) (unread : List Char) : Fault := ⟨reason, unread, 0⟩

/-- A fault at the first byte of the unread text. -/
def Fault.next (reason : Reason) (unread : List Char) : Fault := ⟨reason, unread, 1⟩

/-- A reader takes a value from the front of a text and leaves the rest. -/
abbrev Reader (α : Type) := List Char → Except Fault (α × List Char)

/-! ## Places -/

/-- A line, from 1, and how many bytes of it come before the place. -/
structure Place where
  line : Nat
  column : Nat
  deriving DecidableEq, Repr

/-- The place so many bytes after `p`, if the text follows `p`. It stays in the text. -/
def Place.advance (p : Place) : Nat → List Char → Place
  | _, [] => p
  | 0, _ => p
  | n, c :: cs =>
    if c = '\n' then advance ⟨p.line + 1, 0⟩ (n - 1) cs
    else if Utf8.width c ≤ n then advance ⟨p.line, p.column + Utf8.width c⟩ (n - Utf8.width c) cs
    else ⟨p.line, p.column + n⟩

/-- The place of a fault in the whole text. -/
def Fault.place (text : List Char) (f : Fault) : Place :=
  Place.advance ⟨1, 0⟩ (Utf8.size text - Utf8.size f.unread + f.ahead) text

/-- A reason and its place; what is found wrong in a value that was read before has none. -/
structure Error where
  reason : Reason
  place : Option Place
  deriving DecidableEq, Repr

/-- The words for an error, with its place if it has one. -/
def Error.message (e : Error) : String :=
  match e.place with
  | some p => e.reason.message ++ " at line " ++ toString p.line ++ " column " ++ toString p.column
  | none => e.reason.message

end Json
end FileWarden
