import LiveMarkup.Template.Pass

/-!
# Compiling a template

A template is compiled by its passes in turn: directives, loops, conditionals, ternaries,
placeholders, events. The body of a loop is compiled from the start for every item, in the scope of
that item (`itemScope`). An item is nested less deep than the state in which its array is found, so
compiling ends whatever the directives answer (`compile`).
-/

namespace LiveMarkup

namespace Template

/-- What a template is compiled with. -/
structure Settings where
  directives : List Directive
  /-- What stands for a placeholder without a value, before it is escaped. -/
  defaultValue : List Char

/-- The scope of an item of a loop: its own fields, or one entry named by a point. -/
def itemScope : Value → Fields
  | .object fields => fields
  | item => [(".", item)]

theorem fieldsDepth_itemScope_le (item : Value) :
    Value.fieldsDepth (itemScope item) ≤ item.depth := by
  cases item <;> simp [itemScope, Value.fieldsDepth, Value.depth]

/-- The markup of a template in a state. -/
def compile (settings : Settings) (template : List Char) (state : Fields) : Expansion :=
  let marked :=
    ((((applyDirectives settings.directives state template).andThen
      (unrollLoops state fun body item => compile settings body (itemScope item.1))).andThen
      (selectBranches state)).andThen
      (selectTernaries state)).andThen
      (fillPlaceholders settings.defaultValue state)
  ⟨bindEvents marked.text, marked.events⟩
termination_by Value.fieldsDepth state
decreasing_by
  have := item.2
  have := fieldsDepth_itemScope_le item.1
  omega

end Template

end LiveMarkup
