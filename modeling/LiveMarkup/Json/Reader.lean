import LiveMarkup.Json.Value
import LiveMarkup.Number.Reading
import LiveMarkup.Text.Reading

/-!
# Reading JSON

`Value.ofText` reads a whole text as one value. What is refused is told apart by its cause
(`ReadFault`): the text may end too early, or break the grammar; a reader that asks for a certain
shape may also meet a value of another one.

Arrays and objects may be nested less than `maxNesting` deep. Of two fields with one key the later
one counts. A number without point and exponent that fits in 64 bits is an integer. Every other one
is a double, read as `scale?` says: its first digits are taken as an integer as long as that fits in
64 bits, and one multiplication or division by a power of ten follows. That is not always the
nearest double.
-/

namespace LiveMarkup

/-- Why a text is not read. -/
inductive ReadFault
  /-- The text ends too early. -/
  | unexpectedEnd
  /-- The text breaks the grammar. -/
  | malformed
  /-- A value does not have the shape that is asked for. -/
  | mismatch
  deriving DecidableEq, Repr

namespace Json

/-- Blanks between the tokens of a JSON text. -/
def isBlank (c : Char) : Bool := c == ' ' || c == '\n' || c == '\t' || c == '\r'

/-- The text behind its leading blanks. -/
def skipBlanks (text : List Char) : Scan ReadFault Unit text :=
  .ok ((), .dropWhile isBlank text)

/-- The fault at a place where something else was expected. -/
def faultAt (text : List Char) : ReadFault :=
  if text.isEmpty then .unexpectedEnd else .malformed

/-- The first character behind blanks. -/
def nextChar (text : List Char) : Reading ReadFault Char text :=
  match afterRun? isBlank text with
  | none => .error .unexpectedEnd
  | some found => .ok found

/-! ## Numbers -/

/-- The greatest integer of 64 bits. -/
def maxWord : Nat := Nat.pow 2 64 - 1

/-- The number whose leading digits are worth `n` and are followed by `digits`, of which as many
are taken as fit in 64 bits, and the number of those that are not. -/
def absorb (n : Nat) : List Char → Nat × Nat
  | [] => (n, 0)
  | c :: rest =>
    let next := n * 10 + digitValue c
    if maxWord < next then (n, rest.length + 1) else absorb next rest

/-- A double that is known not to be infinite. -/
def finiteOr (default : FiniteDouble) : Double → FiniteDouble
  | .finite x => x
  | _ => default

/-- The double nearest to a power of ten. -/
def powerOfTen (n : Nat) : FiniteDouble := finiteOr .zero (Double.ofInt (Nat.pow 10 n))

/-- The greatest power of ten that is a double. -/
def maxPower : Nat := 308

/-- A double divided by `10 ^ power`, at most `10 ^ maxPower` at a time. Two full steps leave
nothing of an integer of 64 bits, so no more are made. -/
def scaleDown (x : FiniteDouble) (power : Nat) : FiniteDouble :=
  let divide (y : FiniteDouble) (n : Nat) : FiniteDouble := finiteOr y (Double.div y (powerOfTen n))
  let steps := (power - 1) / maxPower
  let start := (List.replicate (min steps 2) maxPower).foldl divide x
  divide start (power - steps * maxPower)

/-- The double for `significand · 10 ^ exponent`, if it is finite: one multiplication by a power of
ten, or divisions by powers of ten. -/
def scale? (negative : Bool) (significand : Nat) (exponent : Int) : Option FiniteDouble :=
  let x := finiteOr .zero (Double.ofInt significand)
  let magnitude :=
    if exponent < 0 then some (scaleDown x exponent.natAbs)
    else if x.isZero then some x
    else if maxPower < exponent.natAbs then none
    else match Double.mul x (powerOfTen exponent.natAbs) with
      | .finite y => some y
      | _ => none
  magnitude.map fun y => { y with negative }

/-- The number for an integer that fits in 64 bits. A negative zero, and what is below the least
integer of 64 bits with a sign, is a double. -/
def integer (negative : Bool) (n : Nat) : Number :=
  if !negative then .int n
  else if 0 < n ∧ n ≤ Nat.pow 2 63 then .int (-n)
  else .float { finiteOr .zero (Double.ofInt n) with negative := true }

/-- The greatest exponent that is told apart from greater ones. -/
def maxExponent : Nat := Nat.pow 2 31 - 1

/-- The double for a significand and its exponent. -/
def scaled (negative : Bool) (significand : Nat) (exponent : Int) (text : List Char) :
    Scan ReadFault Number text :=
  match scale? negative significand exponent with
  | some x => Scan.pure (.float x) text
  | none => .error .malformed

/-- The sign of an exponent: whether it is a minus. -/
def readSign (text : List Char) : Scan ReadFault Bool text :=
  match text with
  | '-' :: rest => (Reading.tail true '-' rest).toScan
  | '+' :: rest => (Reading.tail false '+' rest).toScan
  | other => Scan.pure false other

/-- A run of digits, which is not empty. -/
def readDigits (text : List Char) : Reading ReadFault (List Char) text :=
  match text with
  | [] => .error .unexpectedEnd
  | c :: rest =>
    if c.isDigit then
      .ok (c :: rest.takeWhile Char.isDigit, (Rest.dropWhile Char.isDigit rest).behind)
    else .error .malformed

/-- The number with the given significand and the exponent that the text goes on with. -/
def readExponent (negative : Bool) (significand : Nat) (exponent : Int) (text : List Char) :
    Scan ReadFault Number text :=
  match text with
  | [] => scaled negative significand exponent []
  | c :: rest =>
    if c = 'e' ∨ c = 'E' then
      (Reading.tail () c rest).andThen (fun _ t _ =>
        (readSign t).andThen fun below t _ =>
          (readDigits t).toScan.andThen fun digits t _ =>
            let size := decimalValue digits
            if maxExponent < size then
              if significand ≠ 0 ∧ !below then .error .malformed
              else Scan.pure (.float ⟨negative, 0⟩) t
            else scaled negative significand (if below then exponent - size else exponent + size) t)
        |>.toScan
    else scaled negative significand exponent (c :: rest)

/-- Reads a number behind its sign. -/
def readNumber (negative : Bool) (text : List Char) : Reading ReadFault Number text :=
  (readDigits text).andThen fun digits t _ =>
    if digits.head? = some '0' ∧ 1 < digits.length then .error .malformed
    else
      let (significand, skipped) := absorb 0 digits
      match t with
      | '.' :: behind =>
        (Reading.tail () '.' behind).andThen (fun _ t _ =>
          (readDigits t).toScan.andThen fun fraction t _ =>
            let (significand, dropped) := absorb significand fraction
            readExponent negative significand (skipped - (fraction.length - dropped : Nat)) t)
          |>.toScan
      | t =>
        let marked := match t.head? with
          | some c => c == 'e' || c == 'E'
          | none => false
        if marked || 0 < skipped then readExponent negative significand skipped t
        else Scan.pure (integer negative significand) t

/-! ## Strings -/

/-- The value of a hexadecimal digit. -/
def hexValue? (c : Char) : Option Nat :=
  if c.isDigit then some (c.toNat - '0'.toNat)
  else if 'a' ≤ c ∧ c ≤ 'f' then some (c.toNat - 'a'.toNat + 10)
  else if 'A' ≤ c ∧ c ≤ 'F' then some (c.toNat - 'A'.toNat + 10)
  else none

/-- Four hexadecimal digits. A text is too short for them if it holds fewer than four bytes. -/
def readHex (text : List Char) : Reading ReadFault Nat text :=
  match text with
  | a :: b :: c :: d :: _ =>
    match hexValue? a, hexValue? b, hexValue? c, hexValue? d with
    | some a, some b, some c, some d =>
      .ok (((a * 16 + b) * 16 + c) * 16 + d, .cons (.cons (.cons .tail)))
    | _, _, _, _ => .error .malformed
  | short =>
    if (String.ofList short).utf8ByteSize < 4 then .error .unexpectedEnd else .error .malformed

/-- The second half of a surrogate pair, escaped in its turn, and the character of the pair. -/
def readLowSurrogate (high : Nat) (text : List Char) : Reading ReadFault Char text :=
  match text with
  | '\\' :: 'u' :: rest =>
    ((readHex rest).andThen fun low t _ =>
      if 0xDC00 ≤ low ∧ low ≤ 0xDFFF then
        Scan.pure (Char.ofNat (0x10000 + (high - 0xD800) * 0x400 + (low - 0xDC00))) t
      else .error .malformed).cons.cons
  | ['\\'] => .error .unexpectedEnd
  | [] => .error .unexpectedEnd
  | _ => .error .malformed

/-- The character that an escape stands for, behind its backslash. -/
def readEscape (text : List Char) : Reading ReadFault Char text :=
  match text with
  | [] => .error .unexpectedEnd
  | c :: rest =>
    match c with
    | '"' => .tail '"' _ rest
    | '\\' => .tail '\\' _ rest
    | '/' => .tail '/' _ rest
    | 'b' => .tail '\x08' _ rest
    | 'f' => .tail '\x0c' _ rest
    | 'n' => .tail '\n' _ rest
    | 'r' => .tail '\r' _ rest
    | 't' => .tail '\t' _ rest
    | 'u' =>
      ((readHex rest).andThen fun code t _ =>
        if 0xDC00 ≤ code ∧ code ≤ 0xDFFF then .error .malformed
        else if 0xD800 ≤ code ∧ code ≤ 0xDBFF then (readLowSurrogate code t).toScan
        else Scan.pure (Char.ofNat code) t).cons
    | _ => .error .malformed

/-- The rest of a string behind its opening quote; `seen` holds its characters so far, last one
first. -/
def readString (seen : List Char) (text : List Char) : Reading ReadFault String text :=
  match text with
  | [] => .error .unexpectedEnd
  | c :: rest =>
    if c = '"' then .tail (String.ofList seen.reverse) c rest
    else if c = '\\' then
      ((readEscape rest).andThen fun d t _ => (readString (d :: seen) t).toScan).cons
    else if c.toNat < 0x20 then .error .malformed
    else (readString (c :: seen) rest).cons
termination_by text.length
decreasing_by
  · simp only [List.length_cons]; omega
  · simp

/-! ## Values -/

/-- Arrays and objects are nested less deep than this. -/
def maxNesting : Nat := 128

/-- A word at the start of a text. -/
def readWord (word : List Char) (text : List Char) : Scan ReadFault Unit text :=
  match word, text with
  | [], text => Scan.pure () text
  | _ :: _, [] => .error .unexpectedEnd
  | w :: ws, c :: cs =>
    if w = c then (readWord ws cs).cons
    else .error .malformed

/-- A value that is written by one character and the rest of a word. -/
def readConstant (value : Value) (word : String) (c : Char) (rest : List Char) :
    Reading ReadFault Value (c :: rest) :=
  (Reading.tail () c rest).andThen fun _ t _ =>
    (readWord word.toList t).andThen fun _ t _ => Scan.pure value t

/-- A value that is neither an array nor an object and begins with `c`. -/
def readScalar (c : Char) (rest : List Char) : Reading ReadFault Value (c :: rest) :=
  if c = 'n' then readConstant .null "ull" c rest
  else if c = 't' then readConstant (.bool true) "rue" c rest
  else if c = 'f' then readConstant (.bool false) "alse" c rest
  else if c = '"' then ((readString [] rest).map .string).cons
  else if c = '-' then ((readNumber true rest).map .number).cons
  else if c.isDigit then (readNumber false (c :: rest)).map .number
  else .error .malformed

/-- A colon behind blanks. -/
def readColon (text : List Char) : Reading ReadFault Unit text :=
  (nextChar text).andThen fun c t _ => if c = ':' then Scan.pure () t else .error .malformed

/-- A string behind blanks. -/
def readKey (text : List Char) : Reading ReadFault String text :=
  (nextChar text).andThen fun c t _ =>
    if c = '"' then (readString [] t).toScan else .error .malformed

/-- Where the next element of an array or object begins: behind a comma unless it is the first. -/
def nextElement {text : List Char} (isFirst : Bool) (c : Char) (rest : Shorter text) :
    Except ReadFault (Rest text) :=
  if isFirst then .ok (rest.restore c)
  else if c = ',' then .ok rest.toRest
  else .error .malformed

mutual

/-- Reads one value. -/
def readValue (nesting : Nat) (text : List Char) : Reading ReadFault Value text :=
  match nextChar text with
  | .error e => .error e
  | .ok (c, rest) =>
    if c = '[' then
      if nesting ≤ 1 then .error .malformed
      else .past rest.toRest ((readItems (nesting - 1) [] rest.1).map .array)
    else if c = '\x7b' then
      if nesting ≤ 1 then .error .malformed
      else .past rest.toRest ((readFields (nesting - 1) true [] rest.1).map .object)
    else .past (rest.restore c) (readScalar c rest.1)
termination_by 2 * text.length
decreasing_by
  all_goals have := rest.2
  all_goals omega

/-- The items of an array behind its bracket, or behind the items `seen`, last one first. -/
def readItems (nesting : Nat) (seen : List Value) (text : List Char) :
    Reading ReadFault (List Value) text :=
  match nextChar text with
  | .error e => .error e
  | .ok (c, rest) =>
    if c = ']' then .ok (seen.reverse, rest)
    else match nextElement seen.isEmpty c rest with
      | .error e => .error e
      | .ok item =>
        .past item ((readValue nesting item.1).andThen fun v t _ =>
          (readItems nesting (v :: seen) t).toScan)
termination_by 2 * text.length + 1
decreasing_by
  all_goals have := item.2
  all_goals omega

/-- The fields of an object behind its brace, or behind the fields `seen`. -/
def readFields (nesting : Nat) (isFirst : Bool) (seen : Fields) (text : List Char) :
    Reading ReadFault Fields text :=
  match nextChar text with
  | .error e => .error e
  | .ok (c, rest) =>
    if c = '\x7d' then .ok (seen, rest)
    else match nextElement isFirst c rest with
      | .error e => .error e
      | .ok field =>
        .past field ((readKey field.1).andThen fun key t _ =>
          ((readColon t).andThen fun _ t _ =>
            ((readValue nesting t).andThen fun v t _ =>
              (readFields nesting false (seen.insert key v) t).toScan).toScan).toScan)
termination_by 2 * text.length + 1
decreasing_by
  all_goals have := field.2
  all_goals omega

end

/-- Nothing but blanks. -/
def readEnd (text : List Char) : Except ReadFault Unit :=
  if (text.dropWhile isBlank).isEmpty then .ok () else .error .malformed

end Json

/-- The value that a whole text writes. -/
def Value.ofText (text : String) : Except ReadFault Value :=
  match Json.readValue Json.maxNesting text.toList with
  | .ok (v, rest) => (Json.readEnd rest.1).map fun _ => v
  | .error e => .error e

end LiveMarkup
