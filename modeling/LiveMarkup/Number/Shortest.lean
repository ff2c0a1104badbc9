import LiveMarkup.Number.Double

/-!
# The shortest decimal that reads back

A finite double stands for every real number that rounds to it: an interval around it, whose ends
belong to it exactly when its significand is even. `FiniteDouble.shortest` is the decimal of that
interval with the fewest digits; of two such decimals it is the nearer one, and halfway the one
with the even last digit. It is found on the grids of one, two, … seventeen digits: if a grid has
a point in the interval, then one of the two neighbours of the double on that grid is such a point.
-/

namespace LiveMarkup

/-- The positive decimal number `digits · 10 ^ exponent`. -/
structure Decimal where
  digits : Nat
  exponent : Int
  deriving DecidableEq, Repr, Inhabited

namespace FiniteDouble

/-- A fraction of natural numbers, `num / den`. -/
structure Fraction where
  num : Nat
  den : Nat

/-- The magnitude of a double measured in steps of `10 ^ exponent`. -/
def inSteps (units : Nat) (exponent : Int) : Fraction :=
  if exponent < 0 then ⟨units * Nat.pow 10 exponent.natAbs, unitsPerOne⟩
  else ⟨units, unitsPerOne * Nat.pow 10 exponent.natAbs⟩

/-- The exponent of the first significant decimal digit of a positive magnitude. -/
def decimalExponent (units : Nat) : Int :=
  let guess := ((units.log2 : Int) - 1074) * 30103 / 100000
  let atLeast (e : Int) : Bool :=
    let f := inSteps units e
    decide (f.den ≤ f.num)
  if atLeast (guess + 1) then guess + 1 else if atLeast guess then guess else guess - 1

/-- Whether `n` steps of `10 ^ exponent` round to the double of that magnitude. All is compared in
quarters of a unit, because the interval reaches half a last place to each side, and only a
quarter of one downwards where the significand is a power of two. -/
def roundsFrom (units : Nat) (n : Nat) (exponent : Int) : Bool :=
  let place := lastPlace units
  let below := if units = Nat.pow 2 52 * place ∧ 1 < place then place else 2 * place
  let low := 4 * units - below
  let high := 4 * units + 2 * place
  let f := inSteps 1 exponent
  let point := 4 * n * f.den
  if units / place % 2 = 0 then low * f.num ≤ point && point ≤ high * f.num
  else low * f.num < point && point < high * f.num

/-- The nearest point to the double on the grid of `10 ^ exponent`, if a point of the grid rounds
to it. -/
def onGrid? (units : Nat) (exponent : Int) : Option Nat :=
  let f := inSteps units exponent
  let n := f.num / f.den
  let nearest := roundHalfEven f.num f.den
  let other := if nearest = n then n + 1 else n
  if roundsFrom units nearest exponent then some nearest
  else if roundsFrom units other exponent then some other
  else none

/-- The decimal of fewest digits that reads back as the given positive magnitude. -/
def shortest (units : Nat) : Decimal :=
  let top := decimalExponent units
  let grid (count : Nat) : Option Decimal :=
    let exponent := top - count
    (onGrid? units exponent).map (⟨·, exponent⟩)
  match (List.range 17).findSome? grid with
  | some d => d
  | none => ⟨0, 0⟩

end FiniteDouble

namespace Decimal

/-- The decimal without trailing zeros among its digits. -/
def normalize (d : Decimal) : Decimal :=
  if h : 0 < d.digits ∧ d.digits % 10 = 0 then normalize ⟨d.digits / 10, d.exponent + 1⟩ else d
termination_by d.digits

/-- How a decimal is laid out. -/
structure Layout where
  /-- The least exponent of a first digit that is written without an exponent. -/
  plainFrom : Int
  /-- The least exponent of a first digit above that which is written with an exponent. -/
  plainBelow : Int
  /-- What a plain number without a fraction ends in. -/
  wholeEnding : String
  /-- What precedes an exponent that is not negative. -/
  exponentMark : String
  /-- What precedes the magnitude of a negative exponent. -/
  negativeExponentMark : String

/-- The text of a decimal in a layout. -/
def write (layout : Layout) (d : Decimal) : String :=
  let d := d.normalize
  let digits := Nat.toDigits 10 d.digits
  let top := d.exponent + digits.length - 1
  let zeros (n : Int) : List Char := List.replicate n.toNat '0'
  if layout.plainFrom ≤ top ∧ top < layout.plainBelow then
    if 0 ≤ d.exponent then String.ofList (digits ++ zeros d.exponent) ++ layout.wholeEnding
    else if 0 ≤ top then
      let whole := (top + 1).toNat
      String.ofList (digits.take whole ++ '.' :: digits.drop whole)
    else String.ofList ('0' :: '.' :: (zeros (-top - 1) ++ digits))
  else
    let significand := match digits with
      | first :: second :: rest => first :: '.' :: second :: rest
      | short => short
    let mark := if top < 0 then layout.negativeExponentMark else layout.exponentMark
    String.ofList significand ++ mark ++ toString top.natAbs

end Decimal

/-- The text of a finite double in a layout. The sign of zero is written. -/
def FiniteDouble.write (layout : Decimal.Layout) (x : FiniteDouble) : String :=
  let sign := if x.negative then "-" else ""
  if x.units = 0 then sign ++ "0" ++ layout.wholeEnding
  else sign ++ (FiniteDouble.shortest x.units).write layout

end LiveMarkup
