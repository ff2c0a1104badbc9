import LiveMarkup.Html.NamedReferences
import LiveMarkup.Number.Reading
import LiveMarkup.Text.Reading

/-!
# Character references

A reference is written with a name or a number behind an ampersand (`readReference?`). A number
stands for one character, and a name for one or two. Of several names that could be read the longest
one counts. Where no reference can be read, the ampersand stands for itself.
-/

namespace LiveMarkup

namespace Html

/-- The character that stands for what is no character. -/
def replacement : Char := '\ufffd'

/-- What the codes from 128 to 159 stand for. -/
def c1Characters : List Nat :=
  [0x20AC, 0x81, 0x201A, 0x0192, 0x201E, 0x2026, 0x2020, 0x2021, 0x02C6, 0x2030, 0x0160, 0x2039,
    0x0152, 0x8D, 0x017D, 0x8F, 0x90, 0x2018, 0x2019, 0x201C, 0x201D, 0x2022, 0x2013, 0x2014,
    0x02DC, 0x2122, 0x0161, 0x203A, 0x0153, 0x9D, 0x017E, 0x0178]

/-- The character of a numeric reference. -/
def characterOfCode (n : Nat) : Char :=
  if n = 0 ∨ 0x10FFFF < n ∨ (0xD800 ≤ n ∧ n ≤ 0xDFFF) then replacement
  else if 0x80 ≤ n ∧ n ≤ 0x9F then Char.ofNat (c1Characters.getD (n - 0x80) n)
  else Char.ofNat n

/-- A hexadecimal digit. -/
def isHexDigit (c : Char) : Bool :=
  c.isDigit || ('a' ≤ c && c ≤ 'f') || ('A' ≤ c && c ≤ 'F')

/-- The value of a hexadecimal digit. -/
def hexDigitValue (c : Char) : Nat :=
  if c.isDigit then digitValue c else c.toLower.toNat - 'a'.toNat + 10

/-- The characters that a reference stands for, and what is left of a text. -/
abbrev Referred (text : List Char) := Option (List Char × Rest text)

/-- The same, seen from a text with one more character in front. -/
def Referred.cons {s : List Char} {c : Char} (r : Referred s) : Referred (c :: s) :=
  match r with
  | some (chars, rest) => some (chars, rest.cons)
  | none => none

/-- A numeric reference whose digits begin the text. -/
def readCode? (isDigit : Char → Bool) (value : List Char → Nat) (text : List Char) :
    Referred text :=
  let digits := text.takeWhile isDigit
  let c := characterOfCode (value digits)
  if digits.isEmpty then none
  else
    match afterRun? isDigit text with
    | some (';', rest) => some ([c], rest.toRest)
    | _ => some ([c], .dropWhile isDigit text)

/-- The number that a run of hexadecimal digits writes. -/
def hexadecimalValue (digits : List Char) : Nat :=
  digits.foldl (fun n c => 16 * n + hexDigitValue c) 0

/-- A numeric reference behind its `#`. -/
def readNumeric? (text : List Char) : Referred text :=
  match text with
  | 'x' :: rest => (readCode? isHexDigit hexadecimalValue rest).cons
  | 'X' :: rest => (readCode? isHexDigit hexadecimalValue rest).cons
  | other => readCode? Char.isDigit decimalValue other

/-- The longest beginning of a word, of a length or shorter, that is a name and needs no semicolon
behind it. -/
def bareName? (word : List Char) : Nat → Option (List Char)
  | 0 => none
  | length + 1 =>
    let name := word.take (length + 1)
    if namesWithoutSemicolon.contains (String.ofList name) then some name
    else bareName? word length

/-- Whether a name without a semicolon is taken for text in an attribute value, because of what is
behind it. -/
def continuesName (behind : List Char) : Bool := behind.head?.any fun c => c == '=' || c.isAlphanum

/-- A named reference whose name begins the text. Names are words, so that the longest one that can
be read is the whole word, if it is a name with a semicolon behind it. -/
def readName? (inAttribute : Bool) (text : List Char) : Referred text :=
  let word := text.takeWhile Char.isAlphanum
  match afterRun? Char.isAlphanum text, referenced? word with
  | some (';', rest), some chars => some (chars, rest.toRest)
  | _, _ =>
    (bareName? word word.length).bind fun name =>
      let behind := Rest.drop name.length text
      if inAttribute && continuesName behind.1 then none
      else (referenced? name).map fun chars => (chars, behind)

/-- The reference behind an ampersand. -/
def readReference? (inAttribute : Bool) (text : List Char) : Referred text :=
  match text with
  | '#' :: rest => (readNumeric? rest).cons
  | other => readName? inAttribute other

end Html

end LiveMarkup
