import LiveMarkup.Number.Double

/-!
# Conditions

A condition is a literal, the name of a state entry, a negation, or two conditions joined by an
operator.
-/

namespace LiveMarkup

/-- A comparison. -/
inductive Comparison
  | looseEq
  | looseNe
  | strictEq
  | strictNe
  | lt
  | le
  | gt
  | ge
  deriving DecidableEq, Repr

/-- An operator between two conditions. -/
inductive Operator
  | or
  | and
  | compare (op : Comparison)
  deriving DecidableEq, Repr

/-- A literal value. -/
inductive Literal
  | number (x : Double)
  | string (s : String)
  | bool (b : Bool)
  | null
  | undefined
  deriving DecidableEq, Repr

/-- A condition. -/
inductive Expr
  | literal (l : Literal)
  /-- The value of the state entry with this name. -/
  | identifier (name : String)
  | not (operand : Expr)
  | binary (op : Operator) (left right : Expr)
  deriving DecidableEq, Repr

end LiveMarkup
