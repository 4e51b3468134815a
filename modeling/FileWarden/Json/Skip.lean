import FileWarden.Json.Value

/-!
# Skipping values

A value that nobody asks for is skipped. Its form is checked, but not how deep it nests, not the
size of its numbers and not the pairing of surrogates in its strings.
-/

namespace FileWarden
namespace Json

/-- Skips a string after its opening quote. -/
def skipString : Nat → List Char → Except Fault (List Char)
  | 0, _ => .error (.here .endInString [])
  | _ + 1, [] => .error (.here .endInString [])
  | _ + 1, '"' :: cs => .ok cs
  | _ + 1, '\\' :: [] => .error (.here .endInString [])
  | fuel + 1, '\\' :: 'u' :: cs => do
    let (_, rest) ← hexEscape cs
    skipString fuel rest
  | fuel + 1, '\\' :: c :: cs =>
    if (escapeLetter? c).isSome then skipString fuel cs else .error (.next .invalidEscape (c :: cs))
  | fuel + 1, c :: cs =>
    if c.toNat < 0x20 then .error (.here .controlCharacter (c :: cs)) else skipString fuel cs

/-- Skips the exponent of a number after its `e`. -/
def skipExponent (cs : List Char) : Except Fault (List Char) :=
  let cs := match cs with
    | '+' :: cs | '-' :: cs => cs
    | cs => cs
  if startsWithDigit cs then .ok (cs.dropWhile Char.isDigit)
  else .error (.next .invalidNumber cs)

/-- Skips the digits after the point of a number, and its exponent. -/
def skipFraction (cs : List Char) : Except Fault (List Char) :=
  if startsWithDigit cs then
    match cs.dropWhile Char.isDigit with
    | 'e' :: rest | 'E' :: rest => skipExponent rest
    | rest => .ok rest
  else .error (.next .invalidNumber cs)

/-- Skips a number after its sign. -/
def skipNumber (cs : List Char) : Except Fault (List Char) :=
  let afterWhole (rest : List Char) : Except Fault (List Char) :=
    match rest with
    | '.' :: rest => skipFraction rest
    | 'e' :: rest | 'E' :: rest => skipExponent rest
    | rest => .ok rest
  match cs with
  | '0' :: rest =>
    if startsWithDigit rest then .error (.next .invalidNumber rest) else afterWhole rest
  | cs =>
    if startsWithDigit cs then afterWhole (cs.dropWhile Char.isDigit)
    else .error (.next .invalidNumber cs)

/-- An array or an object that is not closed yet. -/
inductive Frame where
  | list
  | object
  deriving DecidableEq, Repr

/-- Skips a scalar, or enters an array or an object. -/
def skipStart (cs : List Char) : Except Fault (Option Frame × List Char) :=
  match skipBlanks cs with
  | [] => .error (.next .endInValue [])
  | 'n' :: cs => (literal ['u', 'l', 'l'] cs).map fun (_, rest) => (none, rest)
  | 't' :: cs => (literal ['r', 'u', 'e'] cs).map fun (_, rest) => (none, rest)
  | 'f' :: cs => (literal ['a', 'l', 's', 'e'] cs).map fun (_, rest) => (none, rest)
  | '"' :: cs => (skipString (cs.length + 1) cs).map fun rest => (none, rest)
  | '-' :: cs => (skipNumber cs).map fun rest => (none, rest)
  | '[' :: cs => .ok (some .list, cs)
  | '\x7b' :: cs => .ok (some .object, cs)
  | c :: cs =>
    if c.isDigit then (skipNumber (c :: cs)).map fun rest => (none, rest)
    else .error (.next .expectedValue (c :: cs))

/-- Closes arrays and objects as far as the text does, the innermost first, and leaves those in
which another value follows. The comma in front of that value is read; none is allowed behind an
opening bracket. -/
def close (afterValue : Bool) : List Frame → List Char → Except Fault (List Frame × List Char)
  | [], cs => .ok ([], cs)
  | frame :: frames, cs =>
    match frame, skipBlanks cs with
    | .list, [] => .error (.next .endInList [])
    | .object, [] => .error (.next .endInObject [])
    | .list, ']' :: rest => close true frames rest
    | .object, '\x7d' :: rest => close true frames rest
    | frame, c :: rest =>
      if !afterValue then .ok (frame :: frames, c :: rest)
      else if c = ',' then .ok (frame :: frames, rest)
      else .error (.next (match frame with
        | .list => .expectedCommaInList
        | .object => .expectedCommaInObject) (c :: rest))

/-- Skips a key and its colon. -/
def skipKey (cs : List Char) : Except Fault (List Char) :=
  match skipBlanks cs with
  | [] => .error (.next .endInObject [])
  | '"' :: cs => do colon (← skipString (cs.length + 1) cs)
  | cs => .error (.next .keyNotString cs)

/-- Skips the value that comes next and all that the open arrays and objects still hold. Each round
takes a character at least, so a bound of the length of the text is enough. -/
def skipFrames : Nat → List Frame → List Char → Except Fault (List Char)
  | 0, _, _ => .error (.here .endInValue [])
  | fuel + 1, frames, cs => do
    let (entered, rest) ← skipStart cs
    let (frames, rest) ← close entered.isNone (entered.toList ++ frames) rest
    match frames with
    | [] => return rest
    | .list :: _ => skipFrames fuel frames rest
    | .object :: _ => skipFrames fuel frames (← skipKey rest)

/-- Skips a value. -/
def skip (cs : List Char) : Except Fault (List Char) := skipFrames (cs.length + 1) [] cs

end Json
end FileWarden
