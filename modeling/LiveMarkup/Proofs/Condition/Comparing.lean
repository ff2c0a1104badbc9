import LiveMarkup.Proofs.Condition.Extending
import LiveMarkup.Proofs.Json.Agreement
import LiveMarkup.Proofs.Number.Nearest
import Mathlib.Data.String.Basic

/-!
# Comparisons of values

Two equalities and an order are told for all pairs of values, each with conversions of its own.
They fit together all the same.

* Both equalities are symmetric, and strict equality implies the loose one
  (`Operand.looseEq_of_strictEq`).
* The order of two values is turned around with them (`Operand.compare?_swap`).
* Strings, numbers and booleans are loosely equal exactly if they are the same in their order
  (`Operand.looseEq_of_isPrimitive`). Other values may be loosely equal where they have no order,
  but never where one of them is less (`Operand.compare?_of_looseEq`).
-/

namespace LiveMarkup

/-! ## JSON values and strings -/

theorem Value.same_comm (v w : Value) : v.same w = w.same v := agree_comm Number.same_comm v w

namespace Operand

theorem compareStrings_swap (s t : String) : compareStrings t s = (compareStrings s t).swap := by
  rcases lt_trichotomy s t with h | rfl | h
  · simp [compareStrings, h, h.not_gt, h.ne']
  · simp [compareStrings]
  · simp [compareStrings, h, h.not_gt, h.ne']

theorem compareStrings_eq_eq_iff {s t : String} : compareStrings s t = .eq ↔ s = t := by
  rcases lt_trichotomy s t with h | rfl | h
  · simp [compareStrings, h, h.ne]
  · simp [compareStrings]
  · simp [compareStrings, h.not_gt, h.ne']

variable {a b : Operand}

/-! ## Equalities and the order of values -/

theorem compare?_of_not_strings
    (h : ∀ s t, ¬ (a = value (.string s) ∧ b = value (.string t))) :
    a.compare? b = Double.compare? a.toNumber b.toNumber := by
  unfold compare?
  split
  · next s t => exact absurd ⟨rfl, rfl⟩ (h s t)
  · rfl

/-- Turned around, the order of two values is the opposite one, and values without an order have
none. -/
theorem compare?_swap (a b : Operand) : b.compare? a = (a.compare? b).map Ordering.swap := by
  by_cases h : ∃ s t, a = value (.string s) ∧ b = value (.string t)
  · obtain ⟨s, t, rfl, rfl⟩ := h
    exact congrArg some (compareStrings_swap s t)
  · rw [compare?_of_not_strings fun s t hst => h ⟨t, s, hst.2, hst.1⟩,
      compare?_of_not_strings fun s t hst => h ⟨s, t, hst⟩]
    exact Double.compare?_swap _ _

theorem isPrimitive_cases (h : a.isPrimitive = true) :
    (∃ s, a = value (.string s)) ∨ (∃ n, a = value (.number n)) ∨ ∃ b, a = value (.bool b) := by
  cases a with
  | undefined => cases h
  | value v =>
    cases v with
    | string s => exact .inl ⟨s, rfl⟩
    | number n => exact .inr (.inl ⟨n, rfl⟩)
    | bool b => exact .inr (.inr ⟨b, rfl⟩)
    | _ => cases h

/-- Strings, numbers and booleans are loosely equal exactly if they are the same in their order. -/
theorem looseEq_of_isPrimitive (ha : a.isPrimitive = true) (hb : b.isPrimitive = true) :
    a.looseEq b = (a.compare? b == some .eq) := by
  rcases isPrimitive_cases ha with ⟨s, rfl⟩ | ⟨m, rfl⟩ | ⟨p, rfl⟩
  · rcases isPrimitive_cases hb with ⟨t, rfl⟩ | ⟨n, rfl⟩ | ⟨q, rfl⟩
    · show (s == t) = (some (compareStrings s t) == some .eq)
      rw [Bool.eq_iff_iff, beq_iff_eq, beq_iff_eq, Option.some_inj, compareStrings_eq_eq_iff]
    · rfl
    · rfl
  · rcases isPrimitive_cases hb with ⟨t, rfl⟩ | ⟨n, rfl⟩ | ⟨q, rfl⟩
    · rfl
    · rfl
    · rfl
  · rcases isPrimitive_cases hb with ⟨t, rfl⟩ | ⟨n, rfl⟩ | ⟨q, rfl⟩
    · rfl
    · rfl
    · rfl

/-- Where loosely equal values have an order, they are the same in it. -/
theorem compare?_of_looseEq (h : a.looseEq b = true) :
    a.compare? b = none ∨ a.compare? b = some .eq := by
  by_cases hboth : a.isPrimitive = true ∧ b.isPrimitive = true
  · rw [looseEq_of_isPrimitive hboth.1 hboth.2, beq_iff_eq] at h
    exact .inr h
  · -- What is left is nullish on both sides, or nested on both sides and no number.
    cases a with
    | undefined => exact .inl rfl
    | value v =>
      cases v with
      | null =>
        cases b with
        | undefined => exact .inl rfl
        | value w =>
          cases w with
          | null => exact .inr rfl
          | _ => cases h
      | array _ => exact .inl rfl
      | object _ => exact .inl rfl
      | _ =>
        cases b with
        | undefined => cases h
        | value w =>
          cases w with
          | null => cases h
          | array _ => cases h
          | object _ => cases h
          | _ => exact absurd ⟨rfl, rfl⟩ hboth

theorem looseEq_comm (a b : Operand) : a.looseEq b = b.looseEq a := by
  by_cases hboth : a.isPrimitive = true ∧ b.isPrimitive = true
  · rw [looseEq_of_isPrimitive hboth.1 hboth.2, looseEq_of_isPrimitive hboth.2 hboth.1,
      compare?_swap a b]
    cases a.compare? b with
    | none => rfl
    | some o => cases o <;> rfl
  · cases a with
    | undefined =>
      cases b with
      | undefined => rfl
      | value w => cases w <;> rfl
    | value v =>
      cases b with
      | undefined => cases v <;> rfl
      | value w =>
        cases v with
        | null => cases w <;> rfl
        | array _ => cases w with
          | null => rfl
          | _ => exact Value.same_comm _ _
        | object _ => cases w with
          | null => rfl
          | _ => exact Value.same_comm _ _
        | _ => cases w with
          | null => rfl
          | array _ => rfl
          | object _ => rfl
          | _ => exact absurd ⟨rfl, rfl⟩ hboth

theorem strictEq_comm (a b : Operand) : a.strictEq b = b.strictEq a := by
  cases a with
  | undefined =>
    cases b with
    | undefined => rfl
    | value w => cases w <;> rfl
  | value v =>
    cases b with
    | undefined => cases v <;> rfl
    | value w =>
      cases v with
      | number m =>
        cases w with
        | number n => exact Double.same_comm _ _
        | _ => rfl
      | _ =>
        cases w with
        | number n => rfl
        | _ => exact Value.same_comm _ _

theorem looseEq_of_strictEq (h : a.strictEq b = true) : a.looseEq b = true := by
  cases a with
  | undefined =>
    cases b with
    | undefined => rfl
    | value w => cases h
  | value v =>
    cases b with
    | undefined => cases v <;> cases h
    | value w =>
      cases v with
      | null =>
        cases w with
        | null => rfl
        | _ => cases h
      | bool p =>
        cases w with
        | bool q =>
          obtain rfl : p = q := beq_iff_eq.1 h
          show (value (.bool p)).toNumber.same (value (.bool p)).toNumber = true
          exact Double.same_self (by cases p <;> rintro ⟨⟩)
        | _ => cases h
      | number m =>
        cases w with
        | number n => exact h
        | _ => cases h
      | string s =>
        cases w with
        | string t => exact h
        | _ => cases h
      | array items =>
        cases w with
        | array others => exact h
        | _ => cases h
      | object fields =>
        cases w with
        | object others => exact h
        | _ => cases h

end Operand

/-! ## Comparisons as conditions -/

open Condition

/-- The condition can be written down and has a value in a state. -/
structure Expr.Valued (state : Fields) (e : Expr) (a : Operand) : Prop where
  writable : e.Writable
  value : e.eval state = .ok a

variable {state : Fields} {x y : Expr} {a b : Operand}

theorem Expr.valued_identifier {name : String} {v : Value} (hname : IsName name)
    (hv : state.find? name = some v) : (Expr.identifier name).Valued state (.value v) := by
  refine ⟨hname, ?_⟩
  rw [eval, hv]

theorem Expr.valued_undefined (state : Fields) :
    (Expr.literal .undefined).Valued state .undefined := ⟨trivial, rfl⟩

namespace Comparison

/-- Two conditions with a comparison between them, written in a layout, are true in a state. -/
def HoldsIn (op : Comparison) (layout : Layout) (state : Fields) (x y : Expr) : Prop :=
  evaluateCondition (layout.print (.binary (.compare op) x y)) state = .ok true

theorem evaluateCondition_print (op : Comparison) (layout : Layout) (hx : x.Valued state a)
    (hy : y.Valued state b) :
    evaluateCondition (layout.print (.binary (.compare op) x y)) state = .ok (op.holds a b) := by
  have hparse := layout.parse_print_iff.2
    (show (Expr.binary (.compare op) x y).Writable from ⟨hx.writable, hy.writable⟩)
  rw [evaluateCondition_of_parse hparse, Expr.eval, hx.value, hy.value]
  rfl

theorem holdsIn_iff (op : Comparison) (layout : Layout) (hx : x.Valued state a)
    (hy : y.Valued state b) : op.HoldsIn layout state x y ↔ op.holds a b = true := by
  rw [HoldsIn, evaluateCondition_print op layout hx hy, Except.ok.injEq]

/-- For conditions with values, such as names with entries and the literal for undefined: every
comparison is true or false, and inequality is the negation of equality. Strict equality implies
the loose one, and both are symmetric. The order is turned around with its operands, at most one of
less, loosely equal and greater holds, and for numbers, strings and booleans less or equal is what
it says. -/
theorem fit_together (layout : Layout) (hx : x.Valued state a) (hy : y.Valued state b) :
    (∀ op : Comparison, ∃ t,
        evaluateCondition (layout.print (.binary (.compare op) x y)) state = .ok t) ∧
      (looseNe.HoldsIn layout state x y ↔ ¬ looseEq.HoldsIn layout state x y) ∧
      (strictNe.HoldsIn layout state x y ↔ ¬ strictEq.HoldsIn layout state x y) ∧
      (strictEq.HoldsIn layout state x y → looseEq.HoldsIn layout state x y) ∧
      (looseEq.HoldsIn layout state x y ↔ looseEq.HoldsIn layout state y x) ∧
      (strictEq.HoldsIn layout state x y ↔ strictEq.HoldsIn layout state y x) ∧
      (lt.HoldsIn layout state x y ↔ gt.HoldsIn layout state y x) ∧
      (le.HoldsIn layout state x y ↔ ge.HoldsIn layout state y x) ∧
      ¬ (lt.HoldsIn layout state x y ∧ looseEq.HoldsIn layout state x y) ∧
      ¬ (lt.HoldsIn layout state x y ∧ gt.HoldsIn layout state x y) ∧
      ¬ (looseEq.HoldsIn layout state x y ∧ gt.HoldsIn layout state x y) ∧
      (a.isPrimitive = true → b.isPrimitive = true →
        (le.HoldsIn layout state x y ↔
          lt.HoldsIn layout state x y ∨ looseEq.HoldsIn layout state x y)) := by
  refine ⟨fun op => ⟨_, evaluateCondition_print op layout hx hy⟩, ?_⟩
  simp only [holdsIn_iff _ layout hx hy, holdsIn_iff _ layout hy hx, holds]
  refine ⟨by simp, by simp, Operand.looseEq_of_strictEq, by rw [a.looseEq_comm b],
    by rw [a.strictEq_comm b], ?_, ?_, ?_, ?_, ?_, fun ha hb => ?_⟩
  · rw [a.compare?_swap b]
    cases a.compare? b with
    | none => simp
    | some o => cases o <;> simp
  · rw [a.compare?_swap b]
    cases a.compare? b with
    | none => simp
    | some o => cases o <;> simp
  · rintro ⟨hlt, heq⟩
    rcases Operand.compare?_of_looseEq heq with h | h
    · simp [h] at hlt
    · simp [h] at hlt
  · rintro ⟨hlt, hgt⟩
    cases h : a.compare? b with
    | none => simp [h] at hlt
    | some o => cases o <;> simp [h] at hlt hgt
  · rintro ⟨heq, hgt⟩
    rcases Operand.compare?_of_looseEq heq with h | h
    · simp [h] at hgt
    · simp [h] at hgt
  · rw [Operand.looseEq_of_isPrimitive ha hb]
    cases a.compare? b with
    | none => simp
    | some o => cases o <;> simp

/-- A string is less than a number as the number that it writes, and not as a text. Null is loosely
equal to the literal for undefined, whichever comes first. -/
theorem fit_together_of_numeral :
    let state : Fields := [("x", .string " 2 "), ("y", .number (.int 10)), ("z", .null)]
    let x : Expr := .identifier "x"
    let y : Expr := .identifier "y"
    let z : Expr := .identifier "z"
    let undefined : Expr := .literal .undefined
    x.Valued state (.value (.string " 2 ")) ∧ y.Valued state (.value (.number (.int 10))) ∧
      z.Valued state (.value .null) ∧ undefined.Valued state .undefined ∧
      ∃ layout : Layout, lt.HoldsIn layout state x y ∧ gt.HoldsIn layout state y x ∧
        le.HoldsIn layout state x y ∧ ¬ looseEq.HoldsIn layout state x y ∧
        looseEq.HoldsIn layout state z undefined ∧ looseEq.HoldsIn layout state undefined z := by
  intro state x y z undefined
  have hx : x.Valued state (.value (.string " 2 ")) :=
    Expr.valued_identifier ⟨'x', [], by decide, by decide, by simp, by decide⟩ rfl
  have hy : y.Valued state (.value (.number (.int 10))) :=
    Expr.valued_identifier ⟨'y', [], by decide, by decide, by simp, by decide⟩ rfl
  have hz : z.Valued state (.value .null) :=
    Expr.valued_identifier ⟨'z', [], by decide, by decide, by simp, by decide⟩ rfl
  have hundefined := Expr.valued_undefined state
  obtain ⟨layout, -⟩ := Layout.exists_blanks_eq fun _ _ => ⟨[], AllBlank.nil⟩
  have hlt : lt.HoldsIn layout state x y := by
    rw [holdsIn_iff lt layout hx hy]
    decide +kernel
  have hnull : looseEq.HoldsIn layout state z undefined := by
    rw [holdsIn_iff looseEq layout hz hundefined]
    rfl
  obtain ⟨-, -, -, -, -, -, hgt, -, hne, -, -, hle⟩ := fit_together layout hx hy
  obtain ⟨-, -, -, -, hcomm, -⟩ := fit_together layout hz hundefined
  exact ⟨hx, hy, hz, hundefined, layout, hlt, hgt.1 hlt, (hle rfl rfl).2 (.inl hlt),
    fun heq => hne ⟨hlt, heq⟩, hnull, hcomm.1 hnull⟩

end Comparison

end LiveMarkup
