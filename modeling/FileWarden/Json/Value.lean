import FileWarden.Json.Scalar

/-!
# Reading values

* `found` reads a scalar, or sees that an array or an object begins.
* `toItem` and `toKey` go on to the next item of an array and to the next key of an object.
* `items` and `members` read arrays and objects with a reader for what they hold.
* `value` reads any value that is not nested too deep.
* `parse` reads a whole text.
-/

namespace FileWarden
namespace Json

/-- A JSON value. The members of an object keep their order and may repeat a key. -/
inductive Value where
  | null
  | bool (b : Bool)
  | number (n : Number)
  | string (s : String)
  | array (items : List Value)
  | object (members : List (String × Value))
  deriving Repr

/-- What a value counts as where another one is needed. -/
def Value.found : Value → Found
  | .null => .null
  | .bool b => .bool b
  | .number n => .number n
  | .string s => .string s
  | .array _ => .sequence
  | .object _ => .map

/-- Reads the scalar in front of a text. An array or an object is seen and not read. -/
def found : Reader Found := fun cs =>
  match skipBlanks cs with
  | [] => .error (.next .endInValue [])
  | 'n' :: cs => (literal ['u', 'l', 'l'] cs).map fun (_, rest) => (.null, rest)
  | 't' :: cs => (literal ['r', 'u', 'e'] cs).map fun (_, rest) => (.bool true, rest)
  | 'f' :: cs => (literal ['a', 'l', 's', 'e'] cs).map fun (_, rest) => (.bool false, rest)
  | '"' :: cs => (string cs).map fun (s, rest) => (.string s, rest)
  | '-' :: cs => (number true cs).map fun (n, rest) => (.number n, rest)
  | '[' :: cs => .ok (.sequence, '[' :: cs)
  | '\x7b' :: cs => .ok (.map, '\x7b' :: cs)
  | c :: cs =>
    if c.isDigit then (number false (c :: cs)).map fun (n, rest) => (.number n, rest)
    else .error (.next .expectedValue (c :: cs))

/-! ## Arrays and objects -/

/-- Goes on to the next item of an array: `true` and the text from it on, or `false` and the text
after the `]`. -/
def toItem (first : Bool) : Reader Bool := fun cs =>
  match skipBlanks cs with
  | [] => .error (.next .endInList [])
  | ']' :: cs => .ok (false, cs)
  | c :: cs =>
    if first then .ok (true, c :: cs)
    else if c = ',' then
      match skipBlanks cs with
      | [] => .error (.next .endInValue [])
      | ']' :: cs => .error (.next .trailingComma (']' :: cs))
      | cs => .ok (true, cs)
    else .error (.next .expectedCommaInList (c :: cs))

/-- Reads the items of an array up to its `]`. Each takes a character at least, so a bound of the
length of the text is enough. -/
def items {α : Type} (item : Reader α) : Nat → Bool → Reader (List α)
  | 0, _, _ => .error (.here .endInList [])
  | fuel + 1, first, cs => do
    match ← toItem first cs with
    | (false, rest) => return ([], rest)
    | (true, rest) =>
      let (x, rest) ← item rest
      let (xs, rest) ← items item fuel false rest
      return (x :: xs, rest)

/-- Goes on to the next key of an object: `true` and the text after its opening quote, or `false`
and the text after the closing brace. -/
def toKey (first : Bool) : Reader Bool := fun cs =>
  match skipBlanks cs with
  | [] => .error (.next .endInObject [])
  | '\x7d' :: cs => .ok (false, cs)
  | c :: cs =>
    if first then
      if c = '"' then .ok (true, cs) else .error (.next .keyNotString (c :: cs))
    else if c = ',' then
      match skipBlanks cs with
      | [] => .error (.next .endInValue [])
      | '"' :: cs => .ok (true, cs)
      | '\x7d' :: cs => .error (.next .trailingComma ('\x7d' :: cs))
      | cs => .error (.next .keyNotString cs)
    else .error (.next .expectedCommaInObject (c :: cs))

/-- Reads the colon between a key and its value. -/
def colon : List Char → Except Fault (List Char) := fun cs =>
  match skipBlanks cs with
  | [] => .error (.next .endInObject [])
  | ':' :: cs => .ok cs
  | cs => .error (.next .expectedColon cs)

/-- Reads the members of an object up to its closing brace. A member takes the state and its key,
and reads on from the text after the key. -/
def members {σ : Type} (member : σ → String → Reader σ) : Nat → Bool → σ → Reader σ
  | 0, _, _, _ => .error (.here .endInObject [])
  | fuel + 1, first, s, cs => do
    match ← toKey first cs with
    | (false, rest) => return (s, rest)
    | (true, rest) =>
      let (key, rest) ← string rest
      let (s, rest) ← member s key rest
      members member fuel false s rest

/-- Reads a value with at most so many arrays and objects inside each other. -/
def value : Nat → Reader Value
  | depth, cs => do
    match ← found cs with
    | (.null, rest) => return (.null, rest)
    | (.bool b, rest) => return (.bool b, rest)
    | (.number n, rest) => return (.number n, rest)
    | (.string s, rest) => return (.string s, rest)
    | (.sequence, rest) =>
      match depth with
      | 0 => .error (.next .nestedTooDeep rest)
      | depth + 1 =>
        let (xs, rest) ← items (value depth) (rest.length + 1) true (rest.drop 1)
        return (.array xs, rest)
    | (.map, rest) =>
      match depth with
      | 0 => .error (.next .nestedTooDeep rest)
      | depth + 1 =>
        let member (ms : List (String × Value)) (key : String) : Reader (List (String × Value)) :=
          fun cs => do
            let (v, rest) ← value depth (← colon cs)
            return ((key, v) :: ms, rest)
        let (ms, rest) ← members member (rest.length + 1) true [] (rest.drop 1)
        return (.object ms.reverse, rest)

/-- How many arrays and objects may stand inside each other. -/
def maxDepth : Nat := 127

/-! ## Typed parts -/

/-- The whole number that was found, if it is one of the type in question. -/
def Found.whole {α : Type} (expected : String) (convert : Int → Option α) (f : Found) :
    Except Reason α :=
  match f with
  | .number (.whole n) => match convert n with
    | some a => .ok a
    | none => .error (.wrongValue f expected)
  | f => .error (.wrongType f expected)

/-- The unsigned number of 32 bits that was found. -/
def Found.u32 : Found → Except Reason UInt32 :=
  Found.whole "u32" fun n => if 0 ≤ n ∧ n.toNat < UInt32.size then some (UInt32.ofNat n.toNat) else none

/-- The signed number of 32 bits that was found. -/
def Found.i32 : Found → Except Reason Int32 :=
  Found.whole "i32" fun n =>
    if Int32.minValue.toInt ≤ n ∧ n ≤ Int32.maxValue.toInt then some (Int32.ofInt n) else none

/-- The string that was found. -/
def Found.text : Found → Except Reason String
  | .string s => .ok s
  | f => .error (.wrongType f "a string")

/-- Reads a scalar of a type. One that is not of the type is at fault after it, and an array or an
object before it. -/
def scalar {α : Type} (type : Found → Except Reason α) : Reader α := fun cs => do
  let (f, rest) ← found cs
  match type f with
  | .ok a => return (a, rest)
  | .error r => .error (.here r rest)

/-- Where a key that has been seen before is at fault: behind the blanks after it, and behind the
object if that ends there. -/
def afterRepeated (cs : List Char) : List Char :=
  match skipBlanks cs with
  | '\x7d' :: rest => rest
  | rest => rest

/-- Reads a field that may occur once, from the text after its key. -/
def field {α : Type} (name : String) (before : Option α) (type : Found → Except Reason α) :
    Reader α := fun cs =>
  if before.isSome then .error (.here (.duplicateField name) (afterRepeated cs))
  else do scalar type (← colon cs)

/-- The value of a field that must occur. -/
def required {α : Type} (name : String) : Option α → Except Reason α
  | some a => .ok a
  | none => .error (.missingField name)

/-! ## Whole texts -/

/-- Puts the place of a fault into a text. -/
def Fault.inText (text : List Char) (f : Fault) : Error := ⟨f.reason, some (f.place text)⟩

/-- Reads a whole text. What the reader refuses only after it has read the value has no place, and
comes before anything that follows the value. -/
def parse {α : Type} (reader : Reader (Except Reason α)) (text : String) : Except Error α :=
  let cs := text.toList
  match reader cs with
  | .error f => .error (f.inText cs)
  | .ok (.error r, _) => .error ⟨r, none⟩
  | .ok (.ok a, rest) => match skipBlanks rest with
    | [] => .ok a
    | rest => .error ((Fault.next .trailingCharacters rest).inText cs)

end Json
end FileWarden
