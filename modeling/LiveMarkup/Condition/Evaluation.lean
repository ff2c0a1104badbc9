import LiveMarkup.Condition.Parser
import LiveMarkup.Diagnostic

/-!
# Evaluating a condition

Names stand for the entries of a state; a name without an entry is an error, but only where its
value is asked for: `&&` and `||` evaluate their right side only if the left side does not decide,
and their value is that of the deciding side.

* `Operand.looseEq` converts booleans and strings to numbers, and holds null and undefined equal.
* `Operand.strictEq` converts nothing, and compares numbers by value.
* `Operand.compare?` compares two strings by code points and all else as numbers.
* `evaluateCondition` is the truth of a condition, or an error; `decideCondition` reports the error
  and takes the condition for false.
-/

namespace LiveMarkup

/-- The value of a condition. -/
inductive Operand
  | undefined
  | value (v : Value)
  deriving Repr, Inhabited

namespace Operand

/-- An operand that is a boolean. -/
def ofBool (b : Bool) : Operand := value (.bool b)

/-- The operand of a number. A number that is too large to be a JSON value is null. -/
def ofDouble : Double → Operand
  | .finite x => value (.number (.float x))
  | _ => value .null

/-- Whether an operand counts as true. -/
def truthy : Operand → Bool
  | undefined => false
  | value .null => false
  | value (.bool b) => b
  | value (.number n) => n.toDouble.truthy
  | value (.string s) => !s.isEmpty
  | value (.array _) => true
  | value (.object _) => true

/-- The number that a string writes between blanks; an empty string is zero. -/
def numberOfString (s : String) : Double :=
  match trim s.toList with
  | [] => .zero
  | text => (Double.ofText? text).getD .nan

/-- The number that an operand is converted to. -/
def toNumber : Operand → Double
  | undefined => .nan
  | value .null => .zero
  | value (.bool b) => if b then .one else .zero
  | value (.number n) => n.toDouble
  | value (.string s) => numberOfString s
  | value (.array _) => .nan
  | value (.object _) => .nan

/-- Undefined or null. -/
def isNullish : Operand → Bool
  | undefined => true
  | value .null => true
  | _ => false

/-- A number, a string or a boolean. -/
def isPrimitive : Operand → Bool
  | value (.number _) => true
  | value (.string _) => true
  | value (.bool _) => true
  | _ => false

/-- Equality without conversion. Numbers are compared by value. -/
def strictEq : Operand → Operand → Bool
  | undefined, undefined => true
  | value (.number m), value (.number n) => m.toDouble.same n.toDouble
  | value v, value w => v.same w
  | _, _ => false

/-- Equality with conversion of strings and booleans to numbers. -/
def looseEq (a b : Operand) : Bool :=
  if a.isNullish || b.isNullish then a.isNullish && b.isNullish
  else match a, b with
    | value (.string s), value (.string t) => s == t
    | value v, value w =>
      if a.isPrimitive && b.isPrimitive then a.toNumber.same b.toNumber else v.same w
    | _, _ => false

/-- The order of two strings by code points. -/
def compareStrings (s t : String) : Ordering :=
  if s < t then .lt else if s = t then .eq else .gt

/-- The order of two operands, if they have one. -/
def compare? : Operand → Operand → Option Ordering
  | value (.string s), value (.string t) => some (compareStrings s t)
  | a, b => Double.compare? a.toNumber b.toNumber

end Operand

/-- Whether a comparison holds. -/
def Comparison.holds (op : Comparison) (a b : Operand) : Bool :=
  match op with
  | looseEq => a.looseEq b
  | looseNe => !a.looseEq b
  | strictEq => a.strictEq b
  | strictNe => !a.strictEq b
  | lt => (a.compare? b).any Ordering.isLT
  | le => (a.compare? b).any Ordering.isLE
  | gt => (a.compare? b).any Ordering.isGT
  | ge => (a.compare? b).any Ordering.isGE

/-- The value of a literal. -/
def Literal.value : Literal → Operand
  | number x => .ofDouble x
  | string s => .value (.string s)
  | bool b => .ofBool b
  | null => .value .null
  | undefined => .undefined

/-- The value of a condition in a state. -/
def Expr.eval (state : Fields) : Expr → Except EvalError Operand
  | literal l => .ok l.value
  | identifier name =>
    match state.find? name with
    | some v => .ok (.value v)
    | none => .error (.undefinedIdentifier name)
  | not operand =>
    match operand.eval state with
    | .ok a => .ok (.ofBool !a.truthy)
    | .error e => .error e
  | binary op left right =>
    match left.eval state with
    | .error e => .error e
    | .ok a =>
      match op with
      | .and => if a.truthy then right.eval state else .ok a
      | .or => if a.truthy then .ok a else right.eval state
      | .compare op =>
        match right.eval state with
        | .ok b => .ok (.ofBool (op.holds a b))
        | .error e => .error e

/-- The truth of a condition in a state. -/
def evaluateCondition (text : List Char) (state : Fields) : Except EvalError Bool :=
  match Expr.parse text with
  | .error e => .error (.parse e)
  | .ok e =>
    match e.eval state with
    | .ok a => .ok a.truthy
    | .error e => .error e

/-- The truth of a condition in a state. One that has none counts as false and is reported. -/
def decideCondition (text : List Char) (state : Fields) : Bool × Option Diagnostic :=
  match evaluateCondition text state with
  | .ok b => (b, none)
  | .error e => (false, some (.conditionFailed (String.ofList (trim text)) e.message))

end LiveMarkup
