import LiveMarkup.Condition.Evaluation
import LiveMarkup.Proofs.Text.Reading

/-!
# Blanks before a condition

A condition is read behind its leading blanks, so that a blank in front changes nothing but the
columns of faults (`holds_cons_of_isBlank`).
-/

namespace LiveMarkup

namespace Condition

/-- What is read after the blanks of a condition. -/
def readBehindBlanks (text : List Char) : Except Fault (Expr × List Char) :=
  match text with
  | [] => .error ⟨.unexpectedEnd (some "expression"), []⟩
  | c :: rest =>
    if c = '!' ∧ rest.head? ≠ some '=' then ((readUnary rest).map .not).plain
    else if c = '(' then
      ((readLevel .disjunction rest).andThen fun e t _ => readClosing e t).plain
    else (readAtom c rest).plain

theorem plain_readUnary (text : List Char) :
    (readUnary text).plain = readBehindBlanks (text.dropWhile isBlank) := by
  rw [readUnary]
  split
  · next h =>
    rw [dropWhile_of_afterRun?_eq_none h]
    rfl
  · next c rest h =>
    rw [dropWhile_of_afterRun? h, readBehindBlanks]
    split
    · exact Reading.plain_past _ _
    · split
      · exact Reading.plain_past _ _
      · exact Reading.plain_past _ _

theorem plain_readLevel (level : Level) (text : List Char) :
    (readLevel level text).plain =
      match (readOperand level text).plain with
      | .ok (left, t) => (readChain level left t).plain
      | .error e => .error e := by
  rw [readLevel,
    Reading.plain_andThen (readOperand level text) fun left t => readChain level left t]
  rcases (readOperand level text).plain with e | ⟨left, t⟩
  · rfl
  · rfl

theorem readOperand_eq (level : Level) (text : List Char) :
    readOperand level text =
      match level.tighter? with
      | some next => readLevel next text
      | none => readUnary text := by
  rw [readOperand]
  split
  · next h => rw [h]
  · next h => rw [h]

/-- Reading depends on what stands behind the leading blanks. -/
theorem plain_readLevel_congr (level : Level) {s t : List Char}
    (h : s.dropWhile isBlank = t.dropWhile isBlank) :
    (readLevel level s).plain = (readLevel level t).plain := by
  have hunary : (readUnary s).plain = (readUnary t).plain := by
    rw [plain_readUnary, plain_readUnary, h]
  have hcomparison : (readLevel .comparison s).plain = (readLevel .comparison t).plain := by
    rw [plain_readLevel, plain_readLevel, readOperand_eq, readOperand_eq]
    simp only [Level.tighter?, hunary]
  have hconjunction : (readLevel .conjunction s).plain = (readLevel .conjunction t).plain := by
    rw [plain_readLevel, plain_readLevel, readOperand_eq, readOperand_eq]
    simp only [Level.tighter?, hcomparison]
  cases level with
  | comparison => exact hcomparison
  | conjunction => exact hconjunction
  | disjunction =>
    rw [plain_readLevel, plain_readLevel, readOperand_eq, readOperand_eq]
    simp only [Level.tighter?, hconjunction]

end Condition

open Condition

theorem parse_eq_ok_iff {text : List Char} {e : Expr} :
    Expr.parse text = .ok e ↔
      ∃ rest, (readLevel .disjunction text).plain = .ok (e, rest) ∧ trimStart rest = [] := by
  rw [Expr.parse]
  rcases readLevel .disjunction text with f | ⟨e', rest⟩
  · simp [Reading.plain]
  · simp only [Reading.plain]
    cases h : trimStart rest.1 with
    | nil =>
      constructor
      · rintro ⟨⟩
        exact ⟨rest.1, rfl, h⟩
      · rintro ⟨r, ⟨⟩, -⟩
        rfl
    | cons c left =>
      simp only [reduceCtorEq, false_iff]
      rintro ⟨r, hr, hl⟩
      cases hr
      rw [h] at hl
      cases hl

/-- Whether a condition holds. -/
def holds (condition : List Char) (state : Fields) : Bool := (decideCondition condition state).1

theorem holds_eq_true_iff {condition : List Char} {state : Fields} :
    holds condition state = true ↔
      ∃ e a, Expr.parse condition = .ok e ∧ e.eval state = .ok a ∧ a.truthy = true := by
  rw [holds, decideCondition, evaluateCondition]
  rcases hp : Expr.parse condition with f | e
  · simp
  · rcases he : e.eval state with f | a
    · simp [he]
    · simp [he]

/-- A blank before a condition changes nothing. -/
theorem holds_cons_of_isBlank {b : Char} (hb : isBlank b = true) (condition : List Char)
    (state : Fields) : holds (b :: condition) state = holds condition state := by
  have hparse (e : Expr) : Expr.parse (b :: condition) = .ok e ↔ Expr.parse condition = .ok e := by
    rw [parse_eq_ok_iff, parse_eq_ok_iff,
      plain_readLevel_congr .disjunction (List.dropWhile_cons_of_pos hb)]
  rw [Bool.eq_iff_iff, holds_eq_true_iff, holds_eq_true_iff]
  simp only [hparse]

end LiveMarkup
