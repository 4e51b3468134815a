/-!
# Writing JSON

The compact form: no blanks, members in the order given. In a string a quote, a backslash and the
controls are escaped, and nothing else.
-/

namespace FileWarden
namespace Json

/-- A lower-case hexadecimal digit. -/
def hexDigit (n : Nat) : Char := if n < 10 then Char.ofNat (48 + n) else Char.ofNat (87 + n)

/-- A character in a string. -/
def writeChar (c : Char) : List Char :=
  if c = '"' then ['\\', '"']
  else if c = '\\' then ['\\', '\\']
  else if c = '\x08' then ['\\', 'b']
  else if c = '\x0c' then ['\\', 'f']
  else if c = '\n' then ['\\', 'n']
  else if c = '\r' then ['\\', 'r']
  else if c = '\t' then ['\\', 't']
  else if c.toNat < 0x20 then
    ['\\', 'u', '0', '0', hexDigit (c.toNat / 16), hexDigit (c.toNat % 16)]
  else [c]

/-- A string. -/
def writeString (s : String) : List Char := '"' :: s.toList.flatMap writeChar ++ ['"']

/-- A number without a sign. -/
def writeNat (n : Nat) : List Char := Nat.toDigits 10 n

/-- A whole number. -/
def writeInt (n : Int) : List Char := if n < 0 then '-' :: writeNat n.natAbs else writeNat n.natAbs

/-- The member of an object. -/
def writeMember (m : String × List Char) : List Char := writeString m.1 ++ ':' :: m.2

/-- An object. -/
def writeObject (ms : List (String × List Char)) : List Char :=
  '\x7b' :: [','].intercalate (ms.map writeMember) ++ ['\x7d']

end Json
end FileWarden
