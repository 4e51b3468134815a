/-!
# Intervals of characters

`⟨lo, hi⟩` holds the characters from `lo` to `hi`, both included, by code point. It is empty if `hi`
comes before `lo`, and a single character if the two are equal.
-/

namespace FileWarden

/-- The characters from `lo` to `hi`. -/
structure Interval where
  lo : Char
  hi : Char
  deriving DecidableEq, Repr

namespace Interval

/-- The interval of one character. -/
def single (c : Char) : Interval := ⟨c, c⟩

/-- Whether a character lies in an interval. -/
def holds (i : Interval) (c : Char) : Bool := i.lo ≤ c && c ≤ i.hi

/-- Whether a character lies in one of some intervals. -/
def anyHolds (is : List Interval) (c : Char) : Bool := is.any (·.holds c)

@[simp] theorem holds_iff {i : Interval} {c : Char} : i.holds c = true ↔ i.lo ≤ c ∧ c ≤ i.hi := by
  simp [holds]

theorem anyHolds_iff {is : List Interval} {c : Char} :
    anyHolds is c = true ↔ ∃ i ∈ is, i.lo ≤ c ∧ c ≤ i.hi := by
  simp [anyHolds]

end Interval
end FileWarden
