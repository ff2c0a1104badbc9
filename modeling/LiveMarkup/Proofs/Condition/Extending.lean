import LiveMarkup.Condition.Evaluation
import LiveMarkup.Proofs.Condition.Printing
import LiveMarkup.Json.Fields

/-!
# Conditions in a state with more entries

A condition asks for the values of some of its names, and which ones depends on the values that it
was given before. What it has asked for in a state is the same in every state that has the same
entries and more, so its value is the same too (`Expr.eval_of_within`). It fails only for a name
that stands in it and has no entry (`Expr.exists_of_eval_eq_error`).
-/

namespace LiveMarkup

/-- Every entry of the first state is an entry of the second one. -/
def Fields.Within (state larger : Fields) : Prop :=
  ∀ name value, state.find? name = some value → larger.find? name = some value

/-- The names in a condition, whether or not their values are ever asked for. -/
def Expr.names : Expr → List String
  | literal _ => []
  | identifier name => [name]
  | not operand => operand.names
  | binary _ left right => left.names ++ right.names

variable {state larger : Fields} {text rest : List Char} {e : Expr} {a : Operand} {name : String}

/-! ## Evaluating -/

namespace Expr

/-- By induction on the condition. An operand that is not evaluated in the first state is not
evaluated in the second one, since what decides about it has the same value there. -/
theorem eval_of_within (h : state.Within larger) (he : e.eval state = .ok a) :
    e.eval larger = .ok a := by
  induction e generalizing a with
  | literal l => exact he
  | identifier name =>
    rw [eval] at he ⊢
    cases hfind : state.find? name with
    | none =>
      rw [hfind] at he
      cases he
    | some v =>
      rw [hfind] at he
      rw [h name v hfind]
      exact he
  | not operand ih =>
    rw [eval] at he ⊢
    cases hoperand : operand.eval state with
    | error err =>
      rw [hoperand] at he
      cases he
    | ok b =>
      rw [hoperand] at he
      rw [ih hoperand]
      exact he
  | binary op left right ihleft ihright =>
    rw [eval] at he ⊢
    cases hleft : left.eval state with
    | error err =>
      rw [hleft] at he
      cases he
    | ok b =>
      rw [hleft] at he
      rw [ihleft hleft]
      cases op with
      | or =>
        dsimp only at he ⊢
        split at he
        · next hb => rwa [if_pos hb]
        · next hb => rw [if_neg hb, ihright he]
      | and =>
        dsimp only at he ⊢
        split at he
        · next hb => rw [if_pos hb, ihright he]
        · next hb => rwa [if_neg hb]
      | compare op =>
        dsimp only at he ⊢
        cases hright : right.eval state with
        | error err =>
          rw [hright] at he
          cases he
        | ok c =>
          rw [hright] at he
          rw [ihright hright]
          exact he

/-- A condition without a value has a name without an entry, and reports such a name. -/
theorem exists_of_eval_eq_error {err : EvalError} (he : e.eval state = .error err) :
    ∃ name ∈ e.names, state.contains name = false ∧ err = .undefinedIdentifier name := by
  induction e with
  | literal l => cases he
  | identifier name =>
    rw [eval] at he
    split at he
    · cases he
    · next hfind =>
      cases he
      exact ⟨name, List.mem_singleton_self name, by rw [Fields.contains, hfind]; rfl, rfl⟩
  | not operand ih =>
    rw [eval] at he
    split at he
    · cases he
    · next hoperand =>
      cases he
      exact ih hoperand
  | binary op left right ihleft ihright =>
    have hright (h : right.eval state = .error err) : ∃ name ∈ (binary op left right).names,
        state.contains name = false ∧ err = .undefinedIdentifier name := by
      obtain ⟨name, hname, hrest⟩ := ihright h
      exact ⟨name, List.mem_append_right _ hname, hrest⟩
    rw [eval] at he
    split at he
    · next hleft =>
      cases he
      obtain ⟨name, hname, hrest⟩ := ihleft hleft
      exact ⟨name, List.mem_append_left _ hname, hrest⟩
    · cases op with
      | or =>
        dsimp only at he
        split at he
        · cases he
        · exact hright he
      | and =>
        dsimp only at he
        split at he
        · exact hright he
        · cases he
      | compare op =>
        dsimp only at he
        split at he
        · cases he
        · next h =>
          cases he
          exact hright h

end Expr

/-! ## Names and the text -/

namespace Condition

theorem StringBody.rest_suffix {quote : Char} {cs : List Char}
    (h : StringBody quote text cs rest) : rest <:+ text := by
  induction h with
  | close rest => exact List.suffix_cons quote rest
  | plain _ _ _ ih => exact ih.trans (List.suffix_cons _ _)
  | escaped c _ ih => exact ih.trans ((List.suffix_cons _ _).trans (List.suffix_cons _ _))

theorem IsRun.rest_suffix {p : Char → Bool} {run : List Char} (h : IsRun p text run rest) :
    rest <:+ text := ⟨run, h.split.symm⟩

theorem Atom.rest_suffix (h : Atom text e rest) : rest <:+ text := by
  cases h with
  | string _ body => exact body.rest_suffix.trans (List.suffix_cons _ _)
  | number _ run _ => exact run.rest_suffix.trans (List.suffix_append _ _)
  | word run _ => exact run.rest_suffix

theorem Derives.rest_suffix {symbol : Symbol} (h : Derives symbol text e rest) :
    rest <:+ text := by
  induction h with
  | operand _ ih => exact ih
  | binary _ _ _ ihleft ihright =>
    refine ihright.trans (List.IsSuffix.trans ?_ ihleft)
    exact (List.suffix_append _ _).trans (List.suffix_append _ _)
  | not _ _ ih => exact ih.trans ((List.suffix_cons _ _).trans (List.suffix_append _ _))
  | primary _ ih => exact ih
  | parens _ _ _ ih =>
    refine ((List.suffix_cons _ _).trans (List.suffix_append _ _)).trans (ih.trans ?_)
    exact (List.suffix_cons _ _).trans (List.suffix_append _ _)
  | atom _ atom => exact atom.rest_suffix.trans (List.suffix_append _ _)

theorem Atom.infix_of_mem_names (h : Atom text e rest) (hm : name ∈ e.names) :
    name.toList <:+: text := by
  cases h with
  | string => cases hm
  | number => cases hm
  | @word _ word _ c run _ =>
    rcases ofWord_cases (c :: word) with ⟨b, hword⟩ | hword | hword | hword
    case inr.inr.inr =>
      rw [hword, Expr.names, List.mem_singleton] at hm
      rw [hm, String.toList_ofList, run.split]
      exact (List.prefix_append _ _).isInfix
    all_goals
      rw [hword] at hm
      cases hm

/-- A name of a condition stands in its text. -/
theorem Derives.infix_of_mem_names {symbol : Symbol} (h : Derives symbol text e rest)
    (hm : name ∈ e.names) : name.toList <:+: text := by
  induction h with
  | operand _ ih => exact ih hm
  | binary hleft _ _ ihleft ihright =>
    rcases List.mem_append.1 hm with hm | hm
    · exact ihleft hm
    · refine (ihright hm).trans (List.IsSuffix.isInfix ?_)
      refine List.IsSuffix.trans ?_ hleft.rest_suffix
      exact (List.suffix_append _ _).trans (List.suffix_append _ _)
  | not _ _ ih =>
    exact (ih hm).trans ((List.suffix_cons _ _).trans (List.suffix_append _ _)).isInfix
  | primary _ ih => exact ih hm
  | parens _ _ _ ih =>
    exact (ih hm).trans ((List.suffix_cons _ _).trans (List.suffix_append _ _)).isInfix
  | atom _ atom => exact (atom.infix_of_mem_names hm).trans (List.suffix_append _ _).isInfix

end Condition

open Condition in
theorem Expr.infix_of_mem_names (h : Expr.parse text = .ok e) (hm : name ∈ e.names) :
    name.toList <:+: text := by
  obtain ⟨rest, hderives, -⟩ := parse_eq_ok_iff_derives.1 h
  exact hderives.infix_of_mem_names hm

/-! ## Conditions as texts -/

theorem evaluateCondition_of_parse (h : Expr.parse text = .ok e) (state : Fields) :
    evaluateCondition text state = (e.eval state).map Operand.truthy := by
  rw [evaluateCondition, h]
  dsimp only
  cases e.eval state with
  | error err => rfl
  | ok a => rfl

/-- What cannot be read is reported in every state alike. -/
theorem evaluateCondition_eq_parse_error_iff {err : ParseError} :
    evaluateCondition text state = .error (.parse err) ↔ Expr.parse text = .error err := by
  cases hparse : Expr.parse text with
  | error err' =>
    rw [evaluateCondition, hparse]
    simp
  | ok e =>
    rw [evaluateCondition_of_parse hparse]
    constructor
    · intro h
      cases he : e.eval state with
      | ok a =>
        rw [he] at h
        cases h
      | error other =>
        rw [he] at h
        obtain ⟨name, -, -, rfl⟩ := Expr.exists_of_eval_eq_error he
        cases h
    · rintro ⟨⟩

/-- A condition that is true or false in a state is so in every state with the same entries and
more, and a text that is no condition is reported alike. An undefined name is one of the condition
and without an entry, so a condition all of whose names have entries is true or false. -/
theorem evaluateCondition_of_within (h : state.Within larger) (text : List Char) :
    (∀ b, evaluateCondition text state = .ok b → evaluateCondition text larger = .ok b) ∧
      (∀ err, evaluateCondition text state = .error (.parse err) ↔
        evaluateCondition text larger = .error (.parse err)) ∧
      (∀ name, evaluateCondition text state = .error (.undefinedIdentifier name) →
        ∃ e, Expr.parse text = .ok e ∧ name ∈ e.names ∧ name.toList <:+: text ∧
          state.contains name = false) ∧
      ∀ e, Expr.parse text = .ok e → (∀ name ∈ e.names, state.contains name = true) →
        ∃ b, evaluateCondition text state = .ok b := by
  refine ⟨fun b hb => ?_, fun err => ?_, fun name hname => ?_, fun e hparse hnames => ?_⟩
  · cases hparse : Expr.parse text with
    | error err =>
      rw [evaluateCondition, hparse] at hb
      cases hb
    | ok e =>
      rw [evaluateCondition_of_parse hparse] at hb ⊢
      cases he : e.eval state with
      | error err =>
        rw [he] at hb
        cases hb
      | ok a =>
        rw [he] at hb
        rw [Expr.eval_of_within h he]
        exact hb
  · rw [evaluateCondition_eq_parse_error_iff, evaluateCondition_eq_parse_error_iff]
  · cases hparse : Expr.parse text with
    | error err =>
      rw [evaluateCondition, hparse] at hname
      cases hname
    | ok e =>
      rw [evaluateCondition_of_parse hparse] at hname
      cases he : e.eval state with
      | ok a =>
        rw [he] at hname
        cases hname
      | error err =>
        rw [he] at hname
        obtain ⟨other, hmem, hmissing, rfl⟩ := Expr.exists_of_eval_eq_error he
        cases hname
        exact ⟨e, rfl, hmem, Expr.infix_of_mem_names hparse hmem, hmissing⟩
  · rw [evaluateCondition_of_parse hparse]
    cases he : e.eval state with
    | ok a => exact ⟨a.truthy, rfl⟩
    | error err =>
      obtain ⟨name, hmem, hmissing, -⟩ := Expr.exists_of_eval_eq_error he
      rw [hnames name hmem] at hmissing
      cases hmissing

/-- The right side of `||` is not asked for, so its name may be missing; it may also be there. -/
theorem evaluateCondition_of_within_either :
    let text := "ready || 'x' < missing".toList
    let state : Fields := [("ready", .bool true)]
    let larger : Fields := [("missing", .string "y"), ("ready", .bool true)]
    state.Within larger ∧ evaluateCondition text state = .ok true ∧
      evaluateCondition text larger = .ok true := by
  intro text state larger
  have hwithin : state.Within larger := by
    intro name value hfind
    simp only [state, Fields.find?] at hfind
    split at hfind
    · next hname =>
      cases hfind
      rw [← hname]
      rfl
    · cases hfind
  have hstate : evaluateCondition text state = .ok true := by
    decide +kernel
  exact ⟨hwithin, hstate, (evaluateCondition_of_within hwithin text).1 true hstate⟩

end LiveMarkup
