import LiveMarkup.Condition.Expr
import LiveMarkup.Error
import LiveMarkup.Number.Reading
import LiveMarkup.Text.Blank
import LiveMarkup.Text.Reading

/-!
# Reading a condition

The grammar, from the loosest binding to the tightest: `||`, then `&&`, then the comparisons, then
`!`, then literals, names and parentheses. Operators of one level group to the left, and blanks may
stand before every token and at the end (`Expr.parse`).

A fault is kept with the text from the place at which it is, so that its column can be told from
the whole text alone.
-/

namespace LiveMarkup

namespace Condition

/-- A fault and the text that begins at its place. -/
structure Fault where
  fault : ParseFault
  rest : List Char
  deriving DecidableEq, Repr

/-- The levels at which operators bind. -/
inductive Level
  | disjunction
  | conjunction
  | comparison
  deriving DecidableEq, Repr

namespace Level

/-- The tighter a level binds, the lower its rank. -/
def rank : Level → Nat
  | disjunction => 3
  | conjunction => 2
  | comparison => 1

/-- The next tighter level. -/
def tighter? : Level → Option Level
  | disjunction => some conjunction
  | conjunction => some comparison
  | comparison => none

/-- The operator of a level at the start of a text. Of two spellings the longer one counts. -/
def operator? (level : Level) (text : List Char) : Option (Operator × Shorter text) :=
  match level, text with
  | disjunction, '|' :: '|' :: _ => some (.or, .cons .tail)
  | conjunction, '&' :: '&' :: _ => some (.and, .cons .tail)
  | comparison, '=' :: '=' :: '=' :: _ => some (.compare .strictEq, .cons (.cons .tail))
  | comparison, '!' :: '=' :: '=' :: _ => some (.compare .strictNe, .cons (.cons .tail))
  | comparison, '=' :: '=' :: _ => some (.compare .looseEq, .cons .tail)
  | comparison, '!' :: '=' :: _ => some (.compare .looseNe, .cons .tail)
  | comparison, '<' :: '=' :: _ => some (.compare .le, .cons .tail)
  | comparison, '>' :: '=' :: _ => some (.compare .ge, .cons .tail)
  | comparison, '<' :: _ => some (.compare .lt, .tail)
  | comparison, '>' :: _ => some (.compare .gt, .tail)
  | _, _ => none

theorem rank_pos (level : Level) : 0 < level.rank := by
  cases level <;> decide

theorem rank_tighter {level next : Level} (h : level.tighter? = some next) :
    next.rank < level.rank := by
  cases level <;> simp [tighter?] at h <;> subst h <;> decide

end Level

/-! ## Tokens -/

/-- A text in single quotes, as it is shown in a fault. -/
def quoted (text : List Char) : String := "'" ++ String.ofList text ++ "'"

/-- How many characters of an unexpected text are shown. -/
def shownLength : Nat := 10

/-- A character of a name: an ASCII letter or digit, an underscore or a dollar sign. -/
def isNameChar (c : Char) : Bool := c.isAlphanum || c == '_' || c == '$'

/-- A name begins with anything of a name but a digit. -/
def isNameStart (c : Char) : Bool := c.isAlpha || c == '_' || c == '$'

/-- A character of a number behind its sign. -/
def isNumberChar (c : Char) : Bool := c.isDigit || c == '.'

/-- What a character behind a backslash stands for. -/
def unescapeChar (c : Char) : Char :=
  match c with
  | 'n' => '\n'
  | 't' => '\t'
  | 'r' => '\r'
  | other => other

/-- The word for a literal is that literal, every other one a name. -/
def ofWord (word : List Char) : Expr :=
  let name := String.ofList word
  match name with
  | "true" => .literal (.bool true)
  | "false" => .literal (.bool false)
  | "null" => .literal .null
  | "undefined" => .literal .undefined
  | _ => .identifier name

/-- The rest of a string behind its opening quote, which is the first character of `start`; `seen`
holds the characters so far, last one first. -/
def readString (quote : Char) (start seen : List Char) (text : List Char) :
    Reading Fault Expr text :=
  match text with
  | [] => .error ⟨.unterminatedString, start⟩
  | c :: rest =>
    if c = quote then .tail (.literal (.string (String.ofList seen.reverse))) c rest
    else if c = '\\' then
      match rest with
      | [] => .error ⟨.unterminatedString, start⟩
      | d :: rest => (readString quote start (unescapeChar d :: seen) rest).cons.cons
    else (readString quote start (c :: seen) rest).cons

/-- A number that begins with `c`. Its digits and points are taken together, whether or not they
make a number; if they do not, the fault is behind them. -/
def readNumber (c : Char) (rest : List Char) : Reading Fault Expr (c :: rest) :=
  let literal := c :: rest.takeWhile isNumberChar
  match Double.ofText? literal with
  | some x => .ok (.literal (.number x), (Rest.dropWhile isNumberChar rest).behind)
  | none => .error ⟨.invalidNumber (String.ofList literal), rest.dropWhile isNumberChar⟩

/-- A word that begins with `c`. -/
def readWord (c : Char) (rest : List Char) : Reading Fault Expr (c :: rest) :=
  .ok (ofWord (c :: rest.takeWhile isNameChar), (Rest.dropWhile isNameChar rest).behind)

/-- A literal or a name that begins with `c`. -/
def readAtom (c : Char) (rest : List Char) : Reading Fault Expr (c :: rest) :=
  if c = '\'' ∨ c = '"' then (readString c (c :: rest) [] rest).cons
  else if c = '-' ∨ isNumberChar c then readNumber c rest
  else if isNameStart c then readWord c rest
  else .error ⟨.unexpectedToken "expression" (quoted [c]), c :: rest⟩

/-- A closing parenthesis behind blanks. -/
def readClosing (e : Expr) (text : List Char) : Scan Fault Expr text :=
  match afterRun? isBlank text with
  | none => .error ⟨.unexpectedEnd (some ")"), []⟩
  | some (c, rest) =>
    let found := c :: rest.1
    if c = ')' then .ok (e, rest.toRest)
    else .error ⟨.unexpectedToken (quoted [')']) (quoted (found.take shownLength)), found⟩

/-! ## The levels of the grammar -/

mutual

/-- Operands of a level, joined by its operators. -/
def readLevel (level : Level) (text : List Char) : Reading Fault Expr text :=
  (readOperand level text).andThen fun left t _ => readChain level left t
termination_by 8 * text.length + 2 * level.rank
decreasing_by
  · have := level.rank_pos
    omega
  · omega

/-- What stands beside the operators of a level: operands of the next tighter one. -/
def readOperand (level : Level) (text : List Char) : Reading Fault Expr text :=
  match _h : level.tighter? with
  | some next => readLevel next text
  | none => readUnary text
termination_by 8 * text.length + 2 * level.rank - 1
decreasing_by
  · have := Level.rank_tighter _h
    omega
  · cases level <;> simp [Level.rank]

/-- Further operators and operands behind a left operand. -/
def readChain (level : Level) (left : Expr) (text : List Char) : Scan Fault Expr text :=
  match level.operator? (Rest.dropWhile isBlank text).1 with
  | none => .ok (left, .dropWhile isBlank text)
  | some (op, rest) =>
    .past (.dropWhile isBlank text) <| Reading.toScan <| .past rest.toRest <|
      (readOperand level rest.1).andThen fun right t _ =>
        readChain level (.binary op left right) t
termination_by 8 * text.length
decreasing_by
  all_goals have short := Nat.lt_of_lt_of_le rest.2 (Rest.dropWhile isBlank text).2
  · cases level <;> simp [Level.rank] <;> omega
  · omega

/-- A condition behind any number of negations. A `!` before `=` is no negation. -/
def readUnary (text : List Char) : Reading Fault Expr text :=
  match afterRun? isBlank text with
  | none => .error ⟨.unexpectedEnd (some "expression"), []⟩
  | some (c, rest) =>
    if c = '!' ∧ rest.1.head? ≠ some '=' then .past rest.toRest ((readUnary rest.1).map .not)
    else if c = '(' then
      .past rest.toRest
        ((readLevel .disjunction rest.1).andThen fun e t _ => readClosing e t)
    else .past (rest.restore c) (readAtom c rest.1)
termination_by 8 * text.length
decreasing_by
  all_goals have := rest.2
  · omega
  · simp [Level.rank]
    omega

end

/-- The column, counted from one, at which the rest of a text begins. -/
def column (text rest : List Char) : Nat := text.length - rest.length + 1

/-- A fault with its column in the whole text. -/
def Fault.toError (f : Fault) (text : List Char) : ParseError :=
  ⟨column text f.rest, f.fault⟩

end Condition

open Condition in
/-- The condition that a whole text writes. -/
def Expr.parse (text : List Char) : Except ParseError Expr :=
  match readLevel .disjunction text with
  | .error f => .error (f.toError text)
  | .ok (e, rest) =>
    match trimStart rest.1 with
    | [] => .ok e
    | left => .error (Fault.toError ⟨.trailingInput (String.ofList left), left⟩ text)

end LiveMarkup
