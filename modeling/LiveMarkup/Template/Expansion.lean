import LiveMarkup.Diagnostic
import LiveMarkup.Template.Tag

/-!
# Expansions

Expanding a template gives a text, and on the way things happen: defects are reported and
directives are expanded. An `Expansion` is the text together with these events in their order.
-/

namespace LiveMarkup

namespace Template

/-- What happens while a template is expanded. -/
inductive Event
  | reported (diagnostic : Diagnostic)
  /-- A directive was expanded for its arguments, its content and the state around it. -/
  | expanded (directive : String) (arguments content : List Char) (state : Fields)
  deriving Repr

/-- A text and the events of its making. -/
structure Expansion where
  text : List Char
  events : List Event
  deriving Repr

namespace Expansion

/-- A text that is taken as it is. -/
def literal (text : List Char) : Expansion := ⟨text, []⟩

/-- One expansion behind another. -/
instance : Append Expansion := ⟨fun a b => ⟨a.text ++ b.text, a.events ++ b.events⟩⟩

@[simp] theorem text_append (a b : Expansion) : (a ++ b).text = a.text ++ b.text := rfl

@[simp] theorem events_append (a b : Expansion) : (a ++ b).events = a.events ++ b.events := rfl

/-- The expansions of a list behind one another. -/
def concat : List Expansion → Expansion
  | [] => literal []
  | a :: rest => a ++ concat rest

/-- A further pass over the text of an expansion. -/
def andThen (a : Expansion) (pass : List Char → Expansion) : Expansion :=
  let b := pass a.text
  ⟨b.text, a.events ++ b.events⟩

end Expansion

/-- What a pass makes of a tag: a replacement, or none if the tag stays; and what is reported. -/
structure Substitution where
  replacement? : Option (List Char)
  reported : List Diagnostic

/-- Reports, and gives the replacement. -/
def Substitution.run (s : Substitution) : StateM (List Diagnostic) (Option (List Char)) := do
  modify (· ++ s.reported)
  return s.replacement?

/-- A template whose tags are replaced as `f` says, from left to right. -/
def substituteTags (f : List Char → Substitution) (text : List Char) : Expansion :=
  let (made, reported) := (rewriteTags (fun tag => (f tag).run) [] text).run []
  ⟨made, reported.map .reported⟩

/-- A part of a template behind a pass over its tags. -/
def Segment.substitute (f : List Char → Substitution) : Segment → Expansion
  | literal run => .literal run
  | tag inner =>
    let r := f inner
    ⟨r.replacement?.getD (inBraces inner), r.reported.map .reported⟩

theorem run_mapM_rewrite (f : List Char → Substitution) (parts : List Segment)
    (reported : List Diagnostic) :
    let after := (parts.mapM (Segment.rewrite fun tag => (f tag).run)).run reported
    let made := Expansion.concat (parts.map (Segment.substitute f))
    after.1.flatten = made.text ∧
      after.2.map Event.reported = reported.map .reported ++ made.events := by
  induction parts generalizing reported with
  | nil => exact ⟨rfl, (List.append_nil _).symm⟩
  | cons part rest ih =>
    rw [List.mapM_cons, List.map_cons, Expansion.concat]
    cases part with
    | literal run =>
      obtain ⟨htext, hevents⟩ := ih reported
      exact ⟨congrArg (run ++ ·) htext, hevents⟩
    | tag inner =>
      obtain ⟨htext, hevents⟩ := ih (reported ++ (f inner).reported)
      refine ⟨congrArg ((f inner).replacement?.getD (inBraces inner) ++ ·) htext, hevents.trans ?_⟩
      rw [List.map_append, List.append_assoc]
      rfl

theorem substituteTags_eq_concat (f : List Char → Substitution) (text : List Char) :
    substituteTags f text = .concat ((segments text).map (Segment.substitute f)) := by
  obtain ⟨htext, hevents⟩ := run_mapM_rewrite f (segments text) []
  rw [substituteTags, rewriteTags_eq_mapM_segments]
  exact congr (congrArg Expansion.mk htext) hevents

end Template

end LiveMarkup
