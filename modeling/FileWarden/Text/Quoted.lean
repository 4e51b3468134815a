import FileWarden.Text.Hidden

/-!
# Quoted texts

A text between double quotes, for a log. `quote` writes a quote and a backslash with a backslash in
front, the common controls by a letter, and every other hidden character by its code point, so that
the written form stays on one line and shows all that is in it. `quoteAll` lists several.
-/

namespace FileWarden
namespace Text

/-- The lower-case digits of a number to the base 16. -/
def hexDigits (n : Nat) : List Char := Nat.toDigits 16 n

/-- A character between quotes. -/
def quoteChar (c : Char) : List Char :=
  if c = '"' ∨ c = '\\' then ['\\', c]
  else if c = '\n' then ['\\', 'n']
  else if c = '\r' then ['\\', 'r']
  else if c = '\t' then ['\\', 't']
  else if c = '\x00' then ['\\', '0']
  else if isHidden c then ['\\', 'u', '\x7b'] ++ hexDigits c.toNat ++ ['\x7d']
  else [c]

/-- A text between quotes. -/
def quote (s : String) : String := String.ofList ('"' :: s.toList.flatMap quoteChar ++ ['"'])

/-- Several texts, each between quotes. -/
def quoteAll (ss : List String) : String := "[" ++ String.intercalate ", " (ss.map quote) ++ "]"

end Text
end FileWarden
