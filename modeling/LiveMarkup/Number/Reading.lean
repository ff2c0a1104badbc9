import LiveMarkup.Number.Double

/-!
# Reading a number from text

A number is written as an optional sign and then either a word for infinity or not-a-number (in
any case), or digits with at most one point among, before or after them, and an optional exponent.
It stands for the nearest double (`Double.ofText?`). Grouping marks, other bases and blanks are
refused.
-/

namespace LiveMarkup

/-- The value of a decimal digit. -/
def digitValue (c : Char) : Nat := c.toNat - '0'.toNat

/-- The number that a run of decimal digits writes. -/
def decimalValue (digits : List Char) : Nat :=
  digits.foldl (fun n c => 10 * n + digitValue c) 0

namespace Double

/-- The double nearest to `digits · 10 ^ exponent`. A number so large or so small that its digits
do not matter is answered without forming the power of ten. -/
def ofDecimal (negative : Bool) (digits : Nat) (exponent : Int) : Double :=
  if digits = 0 then .finite ⟨negative, 0⟩
  else
    let top := exponent + (Nat.toDigits 10 digits).length
    if 400 < top then .infinite negative
    else if top < -400 then .finite ⟨negative, 0⟩
    else if exponent < 0 then ofRatio negative digits (Nat.pow 10 exponent.natAbs)
    else ofRatio negative (digits * Nat.pow 10 exponent.natAbs) 1

/-- An optional sign: whether it is a minus, and the text behind it. -/
def readSign : List Char → Bool × List Char
  | '-' :: rest => (true, rest)
  | '+' :: rest => (false, rest)
  | text => (false, text)

/-- The exponent that a whole text writes: nothing, or a mark, an optional sign and digits. -/
def readExponent? : List Char → Option Int
  | [] => some 0
  | c :: rest =>
    if c = 'e' ∨ c = 'E' then
      let (negative, digits) := readSign rest
      if digits.isEmpty || !digits.all Char.isDigit then none
      else some (if negative then -(decimalValue digits : Int) else decimalValue digits)
    else none

/-- The number that an unsigned text writes with digits. -/
def readDigits? (negative : Bool) (text : List Char) : Option Double :=
  let whole := text.takeWhile Char.isDigit
  let rest := text.dropWhile Char.isDigit
  let (fraction, tail) := match rest with
    | '.' :: r => (r.takeWhile Char.isDigit, r.dropWhile Char.isDigit)
    | r => ([], r)
  if whole.isEmpty && fraction.isEmpty then none
  else
    (readExponent? tail).map fun e =>
      ofDecimal negative (decimalValue (whole ++ fraction)) (e - fraction.length)

/-- The double nearest to the number that a text writes, if it writes one. -/
def ofText? (text : List Char) : Option Double :=
  let (negative, unsigned) := readSign text
  let word := unsigned.map Char.toLower
  if word = "inf".toList ∨ word = "infinity".toList then some (.infinite negative)
  else if word = "nan".toList then some .nan
  else readDigits? negative unsigned

end Double

end LiveMarkup
