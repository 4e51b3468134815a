/-!
# Shortest decimal texts of binary fractions

A finite double is `m * 2 ^ q`. It stands for all reals that round to it, an interval around it
whose ends belong to it if `m` is even. `shortest` finds the fewest decimal digits that name a point
of this interval, and of those the point nearest to the double: for each number of digits it looks
at the two neighbours of the double on that decimal grid, in whole numbers.

* `Double.ofBits` takes a double apart.
* `shortest` finds its digits and exponent.
* `Layout.text` writes them, positionally or with an exponent, as the layout says.
-/

namespace FileWarden
namespace Decimal

/-- A finite double `m * 2 ^ q`, with its sign, and whether the next smaller one is only half as far
as the next greater one. -/
structure Double where
  negative : Bool
  m : Nat
  q : Int
  closeBelow : Bool
  deriving DecidableEq, Repr

/-- The double with these bits, if it is finite. -/
def Double.ofBits (bits : UInt64) : Option Double :=
  let b := bits.toNat
  let fraction : Nat := b % Nat.pow 2 52
  let exponent : Nat := b / Nat.pow 2 52 % Nat.pow 2 11
  let negative := decide (Nat.pow 2 63 ≤ b)
  if exponent = 2047 then none
  else if exponent = 0 then some ⟨negative, fraction, -1074, false⟩
  else some ⟨negative, Nat.pow 2 52 + fraction, (exponent : Int) - 1075,
    fraction = 0 && decide (1 < exponent)⟩

/-- A decimal `digits * 10 ^ exponent`. -/
structure Digits where
  digits : Nat
  exponent : Int
  deriving DecidableEq, Repr

/-- A base to a whole power, as a fraction. -/
def power (base : Nat) (e : Int) : Nat × Nat :=
  if 0 ≤ e then (base.pow e.toNat, 1) else (1, base.pow (-e).toNat)

/-- The point of the grid of multiples of `10 ^ e` that rounds to the double and lies nearest to it.
Of two points equally near it is the even one. All is scaled by `4`, so that the ends of the
interval are whole numbers. -/
def onGrid? (x : Double) (e : Int) : Option Nat :=
  let (n2, d2) := power 2 x.q
  let (n10, d10) := power 10 e
  let unit := n2 * d10
  let grid := 4 * n10 * d2
  let value := 4 * x.m * unit
  let low := value - (if x.closeBelow then unit else 2 * unit)
  let high := value + 2 * unit
  let holds (k : Nat) : Bool :=
    if x.m % 2 = 0 then low ≤ k * grid && k * grid ≤ high else low < k * grid && k * grid < high
  let below := value / grid
  let above := below + 1
  let nearer :=
    if 2 * value < (below + above) * grid then below
    else if (below + above) * grid < 2 * value then above
    else if below % 2 = 0 then below else above
  if holds below && holds above then some nearer
  else if holds below && 0 < below then some below
  else if holds above then some above
  else none

/-- The least `k` with `value < 10 ^ k`, from `k` on. -/
def magnitude (x : Double) (fuel : Nat) (k : Int) : Int :=
  match fuel with
  | 0 => k
  | fuel + 1 =>
    let (n2, d2) := power 2 x.q
    let (n10, d10) := power 10 k
    if x.m * n2 * d10 < n10 * d2 then k else magnitude x fuel (k + 1)

/-- The first of `fuel` grids, each ten times finer, that has a point for the double. -/
def firstGrid (x : Double) (fuel : Nat) (e : Int) : Digits :=
  match fuel with
  | 0 => ⟨0, 0⟩
  | fuel + 1 => match onGrid? x e with
    | some k => ⟨k, e⟩
    | none => firstGrid x fuel (e - 1)

/-- The fewest digits that read back as the double. Seventeen are always enough. -/
def shortest (x : Double) : Digits :=
  if x.m = 0 then ⟨0, 0⟩ else firstGrid x 18 (magnitude x 640 (-324))

/-- How decimals are written: from which to which power of ten the first digit may stand for and
still be written positionally. -/
structure Layout where
  positionalFrom : Int
  positionalTo : Int

/-- Digits without the zeros at their end, and how many there were. -/
def stripZeros : List Char → List Char × Nat
  | [] => ([], 0)
  | c :: cs =>
    match stripZeros cs with
    | ([], n) => if c = '0' then ([], n + 1) else ([c], n)
    | (ds, n) => (c :: ds, n)

/-- The written form of a decimal: it has a point with a digit on each side, or an exponent. -/
def Layout.text (l : Layout) (negative : Bool) (d : Digits) : String :=
  let (digits, zeros) := stripZeros (Nat.toDigits 10 d.digits)
  let digits := if digits.isEmpty then ['0'] else digits
  let exponent := if d.digits = 0 then 0 else d.exponent + zeros
  let first := exponent + digits.length - 1
  let body :=
    if l.positionalFrom ≤ first ∧ first ≤ l.positionalTo then
      if first < 0 then "0.".toList ++ List.replicate (-first - 1).toNat '0' ++ digits
      else
        let whole := digits.take (first.toNat + 1)
        let fraction := digits.drop (first.toNat + 1)
        whole ++ List.replicate (first.toNat + 1 - whole.length) '0' ++
          '.' :: (if fraction.isEmpty then ['0'] else fraction)
    else
      let mark := if first < 0 then '-' else '+'
      digits.take 1 ++ (if digits.length = 1 then [] else '.' :: digits.drop 1) ++
        'e' :: mark :: Nat.toDigits 10 first.natAbs
  String.ofList ((if negative then ['-'] else []) ++ body)

end Decimal
end FileWarden
