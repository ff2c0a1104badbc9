import LiveMarkup.Engine.Render
import LiveMarkup.Html.Tokenizer

/-!
# Executing programs

`execute` carries out the commands of a program, and `invoke` is what it means to call something. A
call may lead to further calls, inside it. How deep calls may be nested is given as a number; a run
in which they go deeper has no result, and in every other run the number does not matter.
-/

namespace LiveMarkup

namespace Run

variable {σ : Type}

/-- Carries out the commands of a program. What it writes is put in order first. -/
def execute [Html.Tokenizer] (call : Callback σ → Run σ Unit) : Program σ → Run σ Unit
  | .done => pure ()
  | .ask next => do execute call (next (← get).host)
  | .tell f next => do
    modify fun w => { w with host := f w.host }
    execute call next
  | .value h next => do execute call (next ((← get).value? h))
  | .set h key v next => do execute call (next (← set call h key (.ofValue v)))
  | .setIndex h index v next => do execute call (next (← setIndex call h index (.ofValue v)))
  | .remove h key next => do execute call (next (← remove call h key))
  | .merge h entries next => do execute call (next (← merge call h (.ofFields entries)))
  | .subscribe store listener next => do
    execute call (next (← subscribe store (.script listener)))
  | .unsubscribe store id next => do execute call (next (← unsubscribe store id))
  | .addDirective name expand script next => do
    addDirective name ⟨expand, script⟩
    execute call next
  | .create state next => do
    let store ← modifyGet fun w =>
      let (w, store) := w.addStore (.ofFields state) w.log
      (store, w)
    execute call (next store)
  | .element s next => do execute call (next ((← get).element? s))
  | .outerHtml s next => do execute call (next ((← get).outerHtml? s))
  | .render s next => do execute call (next (← mount call s))

/-- Calls something; calls may be nested less deep than the given number. -/
def invoke [Html.Tokenizer] : Nat → Callback σ → Run σ Unit
  | 0, _ => failure
  | depth + 1, .script p => execute (invoke depth) p
  | depth + 1, .refresh s => onChange (invoke depth) s

end Run

end LiveMarkup
