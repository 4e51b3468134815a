import FileWarden.Json.Fault

/-!
# Reading literals, numbers and strings

* `skipBlanks` drops the blanks of JSON.
* `literal` reads the rest of `null`, `true` or `false`.
* `number` reads a number. Whole numbers that fit into 64 bits stay whole; all others are doubles.
* `string` reads a string after its opening quote, and `surrogate?` joins the halves of a pair.
-/

namespace FileWarden
namespace Json

/-- Whether a character is a blank of JSON. -/
def isBlank (c : Char) : Bool := c = ' ' || c = '\t' || c = '\n' || c = '\r'

/-- A text without the blanks in front. -/
def skipBlanks (cs : List Char) : List Char := cs.dropWhile isBlank

/-- Reads the characters of a word. -/
def literal (word : List Char) : Reader Unit := fun cs =>
  match word, cs with
  | [], cs => .ok ((), cs)
  | _ :: _, [] => .error (.here .endInValue [])
  | w :: word, c :: cs =>
    if c = w then literal word cs else .error (.next .expectedLiteral (c :: cs))

/-! ## Numbers -/

/-- Whether a text goes on with a digit. -/
def startsWithDigit (cs : List Char) : Bool := cs.head?.any Char.isDigit

/-- The value of a digit. -/
def digitValue (c : Char) : Nat := c.toNat - '0'.toNat

/-- Reads digits onto a number as long as it stays within a limit: the number, how many digits were
read, and the rest. -/
def digits (limit : Nat) (n count : Nat) : List Char → Nat × Nat × List Char
  | [] => (n, count, [])
  | c :: cs =>
    if c.isDigit && n * 10 + digitValue c ≤ limit then
      digits limit (n * 10 + digitValue c) (count + 1) cs
    else (n, count, c :: cs)

/-- The greatest number of 64 bits. -/
def maxWhole : Nat := UInt64.size - 1

/-- The double nearest to a power of ten, up to the 308th. -/
def tenTo (n : Nat) : Float := Float.ofScientific 1 false n

/-- `f / 10 ^ n`, in steps of at most `10 ^ 308`. -/
def scaleDown (f : Float) (n : Nat) : Float :=
  if n ≤ 308 then f / tenTo n
  else if f == 0 then f
  else scaleDown (f / tenTo 308) (n - 308)
  termination_by n

/-- The double for `significand * 10 ^ exponent`: the significand is rounded to a double first, and
then multiplied or divided by a rounded power of ten. There is none if it is infinite. -/
def double? (negative : Bool) (significand : Nat) (exponent : Int) : Option UInt64 :=
  let f := Float.ofNat significand
  let f :=
    if exponent < 0 then scaleDown f exponent.natAbs
    else if exponent ≤ 308 then f * tenTo exponent.toNat
    else if significand = 0 then f
    else 1.0 / 0.0
  if f.isInf then none else some (if negative then -f else f).toBits

/-- The number for a significand and an exponent, before the rest. -/
def finish (negative : Bool) (significand : Nat) (exponent : Int) : Reader Number := fun cs =>
  match double? negative significand exponent with
  | some bits => .ok (.double bits, cs)
  | none => .error (.here .numberOutOfRange cs)

/-- Reads the exponent of a number after its `e`. An exponent past 32 bits makes the number zero,
or out of range. -/
def exponentPart (negative : Bool) (significand : Nat) (exponent : Int) : Reader Number := fun cs =>
  let (down, cs) := match cs with
    | '+' :: cs => (false, cs)
    | '-' :: cs => (true, cs)
    | cs => (false, cs)
  match cs with
  | [] => .error (.here .endInValue [])
  | c :: cs =>
    if c.isDigit then
      let (e, _, rest) := digits 0x7FFFFFFF (digitValue c) 1 cs
      if startsWithDigit rest then
        if significand ≠ 0 && !down then .error (.here .numberOutOfRange (rest.drop 1))
        else .ok (.double (if negative then (-0.0 : Float) else 0.0).toBits,
          rest.dropWhile Char.isDigit)
      else finish negative significand (if down then exponent - e else exponent + e) rest
    else .error (.next .invalidNumber (c :: cs))

/-- Reads what can follow the digits of a number: an exponent or nothing. -/
def afterDigits (negative : Bool) (significand : Nat) (exponent : Int) : Reader Number := fun cs =>
  match cs with
  | 'e' :: cs | 'E' :: cs => exponentPart negative significand exponent cs
  | cs => finish negative significand exponent cs

/-- Reads the digits after the point. Those that no longer fit into the significand do not count. -/
def fractionPart (negative : Bool) (significand : Nat) (exponent : Int) : Reader Number := fun cs =>
  if startsWithDigit cs then
    let (n, count, rest) := digits maxWhole significand 0 cs
    afterDigits negative n (exponent - count) (rest.dropWhile Char.isDigit)
  else match cs with
    | [] => .error (.next .endInValue [])
    | cs => .error (.next .invalidNumber cs)

/-- Reads what follows the digits in front of the point. -/
def afterWhole (negative : Bool) (n : Nat) : Reader Number := fun cs =>
  let rest := cs.dropWhile Char.isDigit
  let dropped : Int := cs.length - rest.length
  match rest with
  | '.' :: rest => fractionPart negative n dropped rest
  | 'e' :: _ | 'E' :: _ => afterDigits negative n dropped rest
  | rest =>
    if 0 < dropped then finish negative n dropped rest
    else if !negative then .ok (.whole n, rest)
    else if n = 0 ∨ 0x8000000000000000 < n then finish true n 0 rest
    else .ok (.whole (-n), rest)

/-- Reads a number after its sign. -/
def number (negative : Bool) : Reader Number := fun cs =>
  match cs with
  | [] => .error (.here .endInValue [])
  | '0' :: cs =>
    if startsWithDigit cs then .error (.next .invalidNumber cs) else afterWhole negative 0 cs
  | c :: cs =>
    if c.isDigit then
      let (n, _, rest) := digits maxWhole (digitValue c) 1 cs
      afterWhole negative n rest
    else .error (.next .invalidNumber (c :: cs))

/-! ## Strings -/

/-- The value of a hexadecimal digit. -/
def hexValue? (c : Char) : Option Nat :=
  if '0' ≤ c ∧ c ≤ '9' then some (c.toNat - '0'.toNat)
  else if 'a' ≤ c ∧ c ≤ 'f' then some (c.toNat - 'a'.toNat + 10)
  else if 'A' ≤ c ∧ c ≤ 'F' then some (c.toNat - 'A'.toNat + 10)
  else none

/-- The number that four hexadecimal digits stand for. -/
def hexNumber? (a b c d : Char) : Option Nat := do
  return ((← hexValue? a) * 16 + (← hexValue? b)) * 256 + (← hexValue? c) * 16 + (← hexValue? d)

/-- Reads four hexadecimal digits. The next four bytes count as read also if they are none. -/
def hexEscape : Reader Nat := fun cs =>
  if Utf8.size cs < 4 then .error (.here .endInString [])
  else match cs with
    | a :: b :: c :: d :: rest =>
      match hexNumber? a b c d with
      | some n => .ok (n, rest)
      | none => .error ⟨.invalidEscape, cs, 4⟩
    | cs => .error ⟨.invalidEscape, cs, 4⟩

/-- The code point of a surrogate pair. -/
def joinSurrogates (high low : Nat) : Nat := 0x10000 + (high - 0xD800) * 0x400 + (low - 0xDC00)

/-- Reads the character of an escape after its `\u`. The first half of a surrogate pair needs the
second half, escaped, right behind it. -/
def unicodeEscape : Reader Char := fun cs => do
  let (n, rest) ← hexEscape cs
  if 0xDC00 ≤ n ∧ n ≤ 0xDFFF then .error (.here .loneSurrogate rest)
  else if n < 0xD800 ∨ 0xDBFF < n then .ok (Char.ofNat n, rest)
  else match rest with
    | [] => .error (.here .endInString [])
    | '\\' :: 'u' :: rest =>
      let (m, rest) ← hexEscape rest
      if m < 0xDC00 ∨ 0xDFFF < m then .error (.here .loneSurrogate rest)
      else .ok (Char.ofNat (joinSurrogates n m), rest)
    | '\\' :: [] => .error (.here .endInString [])
    | '\\' :: rest => .error (.next .unfinishedSurrogate rest)
    | rest => .error (.next .unfinishedSurrogate rest)

/-- The character that a letter stands for after a backslash. -/
def escapeLetter? : Char → Option Char
  | '"' => some '"'
  | '\\' => some '\\'
  | '/' => some '/'
  | 'b' => some '\x08'
  | 'f' => some '\x0c'
  | 'n' => some '\n'
  | 'r' => some '\r'
  | 't' => some '\t'
  | _ => none

/-- Reads the character of an escape after its backslash. -/
def escape : Reader Char := fun cs =>
  match cs with
  | [] => .error (.here .endInString [])
  | 'u' :: cs => unicodeEscape cs
  | c :: cs => match escapeLetter? c with
    | some d => .ok (d, cs)
    | none => .error (.next .invalidEscape (c :: cs))

/-- Reads the characters of a string up to its closing quote. Each step takes a character at least,
so a bound of the length of the text is enough. -/
def characters : Nat → Reader (List Char)
  | 0, _ => .error (.here .endInString [])
  | _ + 1, [] => .error (.here .endInString [])
  | _ + 1, '"' :: cs => .ok ([], cs)
  | fuel + 1, '\\' :: cs => do
    let (c, rest) ← escape cs
    let (tail, rest) ← characters fuel rest
    return (c :: tail, rest)
  | fuel + 1, c :: cs =>
    if c.toNat < 0x20 then .error (.next .controlCharacter (c :: cs))
    else do
      let (tail, rest) ← characters fuel cs
      return (c :: tail, rest)

/-- Reads a string after its opening quote. -/
def string : Reader String := fun cs =>
  (characters (cs.length + 1) cs).map fun (s, rest) => (String.ofList s, rest)

end Json
end FileWarden
