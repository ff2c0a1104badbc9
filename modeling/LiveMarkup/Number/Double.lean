/-!
# Double-precision numbers

Every finite double is a whole multiple of the least positive one, `2⁻¹⁰⁷⁴`. A finite double is
therefore kept as a sign and a number of such units, so that comparing two doubles is comparing
two integers, and an operation on them is the exact one followed by one rounding
(`Double.ofRatio`): to the nearest double, and halfway to the one with the even significand.

* `FiniteDouble.value` is the signed number of units. The two zeros have the same value.
* `Double.ofRatio` rounds a quotient of two natural numbers.
* `Double.compare?` orders all doubles but not-a-number.
-/

namespace LiveMarkup

/-- A finite double: a sign, and a magnitude in units of `2⁻¹⁰⁷⁴`. The sign of zero is kept. -/
structure FiniteDouble where
  negative : Bool
  units : Nat
  deriving DecidableEq, Repr, Inhabited

/-- A 64-bit binary floating-point number. -/
inductive Double
  | nan
  | infinite (negative : Bool)
  | finite (x : FiniteDouble)
  deriving DecidableEq, Repr, Inhabited

/-- The quotient rounded to the nearest natural number, and halfway to the even one. -/
def roundHalfEven (num den : Nat) : Nat :=
  let q := num / den
  let r := num % den
  if 2 * r < den then q
  else if den < 2 * r then q + 1
  else if q % 2 = 0 then q else q + 1

namespace FiniteDouble

/-- How many units make one. -/
def unitsPerOne : Nat := Nat.pow 2 1074

/-- The first magnitude, in units, that is too large for a finite double. -/
def overflow : Nat := Nat.pow 2 2098

/-- The value of the last place of a magnitude: a significand has 53 bits. -/
def lastPlace (units : Nat) : Nat := Nat.pow 2 (units.log2 - 52)

/-- The signed number of units. -/
def value (x : FiniteDouble) : Int :=
  if x.negative then -(x.units : Int) else x.units

/-- Either zero. -/
def isZero (x : FiniteDouble) : Bool := x.units == 0

/-- The zero without a sign. -/
def zero : FiniteDouble := ⟨false, 0⟩

/-- The numeric order, for which the two zeros are the same. -/
def compare (x y : FiniteDouble) : Ordering := Ord.compare x.value y.value

/-- Numeric equality, for which the two zeros are the same. -/
def same (x y : FiniteDouble) : Bool := x.value == y.value

end FiniteDouble

namespace Double

open FiniteDouble

/-- The double nearest to a magnitude of `num / den` units, with the given sign. -/
def ofUnitsRatio (negative : Bool) (num den : Nat) : Double :=
  let place := lastPlace (num / den)
  let units := roundHalfEven num (den * place) * place
  if units < overflow then .finite ⟨negative, units⟩ else .infinite negative

/-- The double nearest to `num / den`, with the given sign. -/
def ofRatio (negative : Bool) (num den : Nat) : Double :=
  ofUnitsRatio negative (num * unitsPerOne) den

/-- The double nearest to an integer. -/
def ofInt (n : Int) : Double := ofRatio (decide (n < 0)) n.natAbs 1

/-- The double nearest to a product. -/
def mul (x y : FiniteDouble) : Double :=
  ofUnitsRatio (x.negative != y.negative) (x.units * y.units) unitsPerOne

/-- The double nearest to a quotient. The divisor is not zero. -/
def div (x y : FiniteDouble) : Double :=
  ofUnitsRatio (x.negative != y.negative) (x.units * unitsPerOne) y.units

/-- The zero without a sign. -/
def zero : Double := .finite FiniteDouble.zero

/-- One. -/
def one : Double := .finite ⟨false, unitsPerOne⟩

/-- The numeric order. Not-a-number is not comparable, not even to itself. -/
def compare? : Double → Double → Option Ordering
  | nan, _ => none
  | _, nan => none
  | finite x, finite y => some (x.compare y)
  | infinite a, infinite b => some (Ord.compare b a)
  | infinite a, finite _ => some (if a then .lt else .gt)
  | finite _, infinite b => some (if b then .gt else .lt)

/-- Numeric equality: the two zeros are equal, and not-a-number differs from itself. -/
def same (x y : Double) : Bool := compare? x y == some .eq

/-- A number that counts as true: neither a zero nor not-a-number. -/
def truthy : Double → Bool
  | nan => false
  | infinite _ => true
  | finite x => !x.isZero

end Double

end LiveMarkup
