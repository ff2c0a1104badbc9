import LiveMarkup.Proofs.Text.Occurrence
import LiveMarkup.Template.Pass

/-!
# Passes as scans

A pass looks for a mark, and tries to take something behind it. What it takes is replaced, and the
pass goes on behind it; where nothing can be taken the mark is left, and the pass goes on behind the
mark. `Scans mark take pass` says so of a pass; `scans_applyDirective`, `scans_unrollLoops`,
`scans_selectBranches` and `scans_substituteTags` say it of the passes over a template.

Of a scan, three things follow that the passes are reasoned about with.

* `Scans.append`: text in which no mark begins is left.
* `Scans.taken`: what is taken is replaced.
* `Scans.left`: a mark behind which nothing can be taken is left.
-/

namespace LiveMarkup

namespace Template

/-! ## Expansions -/

namespace Expansion

theorem eq_of {a b : Expansion} (ht : a.text = b.text) (he : a.events = b.events) : a = b := by
  cases a
  cases b
  cases ht
  cases he
  rfl

@[simp] theorem text_literal (t : List Char) : (literal t).text = t := rfl

@[simp] theorem events_literal (t : List Char) : (literal t).events = [] := rfl

@[simp] theorem text_andThen (a : Expansion) (pass : List Char → Expansion) :
    (a.andThen pass).text = (pass a.text).text := rfl

@[simp] theorem events_andThen (a : Expansion) (pass : List Char → Expansion) :
    (a.andThen pass).events = a.events ++ (pass a.text).events := rfl

/-- Texts and events of expansions are joined one after the other, so that brackets do not
matter. -/
theorem append_assoc (a b c : Expansion) : a ++ b ++ c = a ++ (b ++ c) :=
  eq_of (by simp) (by simp)

/-- What is left as it is may be cut anywhere. -/
theorem literal_append (s t : List Char) : literal (s ++ t) = literal s ++ literal t := rfl

theorem literal_nil_append (a : Expansion) : literal [] ++ a = a := eq_of (by simp) (by simp)

/-- A pass over text that was left as it is, is the pass over the text. -/
theorem literal_andThen (t : List Char) (pass : List Char → Expansion) :
    (literal t).andThen pass = pass t := rfl

end Expansion

open Expansion

/-! ## Scans -/

/-- The pass looks for the mark, and replaces what `take` takes behind it. -/
def Scans (mark : List Char) (take : List Char → Option (Expansion × List Char))
    (pass : List Char → Expansion) : Prop :=
  ∀ text, pass text =
    match splitOnce? mark text with
    | none => literal text
    | some (before, behind) =>
      match take behind with
      | none => literal (before ++ mark) ++ pass behind
      | some (made, rest) => literal before ++ made ++ pass rest

namespace Scans

variable {mark : List Char} {take : List Char → Option (Expansion × List Char)}
  {pass : List Char → Expansion}

/-- Text without the mark is left as it is. -/
theorem of_absent (h : Scans mark take pass) {text : List Char} (ht : ¬ mark <:+: text) :
    pass text = literal text := by
  rw [h text, splitOnce?_eq_none_iff.2 ht]

/-- Text in which no mark begins is left: the mark that is found in the whole text is that found
behind it. -/
theorem append (h : Scans mark take pass) {p rest : List Char}
    (hp : splitOnce? mark (p ++ rest) = (splitOnce? mark rest).map (Prod.map (p ++ ·) id)) :
    pass (p ++ rest) = literal p ++ pass rest := by
  rw [h (p ++ rest), h rest, hp]
  cases splitOnce? mark rest with
  | none => rfl
  | some found =>
    obtain ⟨before, behind⟩ := found
    simp only [Option.map_some, Prod.map, id]
    cases take behind with
    | none => simp only [literal_append, append_assoc]
    | some made => simp only [literal_append, append_assoc]

/-- What is taken behind a mark is replaced together with the mark, and the pass goes on behind
it. -/
theorem taken (h : Scans mark take pass) {behind rest : List Char} {made : Expansion}
    (ht : take behind = some (made, rest)) : pass (mark ++ behind) = made ++ pass rest := by
  rw [h, splitOnce?_self_append]
  simp only [ht, literal_nil_append]

/-- A mark behind which nothing can be taken is left, and the pass goes on behind the mark. -/
theorem left (h : Scans mark take pass) {behind : List Char} (ht : take behind = none) :
    pass (mark ++ behind) = literal mark ++ pass behind := by
  rw [h, splitOnce?_self_append]
  simp only [ht, List.nil_append]

end Scans

/-! ## The passes -/

/-- What the pass of a directive takes. -/
def takeDirective (d : Directive) (state : Fields) (behind : List Char) :
    Option (Expansion × List Char) :=
  (readDirective? d.name.toList behind).map fun (arguments, content, rest) =>
    (⟨d.expand arguments content state, [.expanded d.name arguments content state]⟩, rest)

/-- The pass of a directive is a scan for the start of its block. -/
theorem scans_applyDirective (d : Directive) (state : Fields) :
    Scans (directiveStart d.name.toList) (takeDirective d state) (applyDirective d state) := by
  intro text
  rw [applyDirective]
  split
  · next hs => rw [hs]
  · next hs =>
    rw [hs]
    split
    · next hd => simp only [takeDirective, hd, Option.map_none]
    · next hd => simp only [takeDirective, hd, Option.map_some]

/-- What stands for a loop. -/
def repeatBody (state : Fields) (each : List Char → Inner state → Expansion)
    (key content : List Char) : Expansion :=
  match itemsUnder? state (String.ofList key) with
  | some items => .concat (items.map (each content))
  | none => ⟨[], [.reported (.loopTargetNotSequence (String.ofList key))]⟩

/-- What the pass over loops takes. -/
def takeLoop (state : Fields) (each : List Char → Inner state → Expansion)
    (behind : List Char) : Option (Expansion × List Char) :=
  (readLoop? behind).map fun (key, content, rest) => (repeatBody state each key content, rest)

/-- The pass over loops is a scan for the start of a loop, whatever is done with each item. -/
theorem scans_unrollLoops (state : Fields) (each : List Char → Inner state → Expansion) :
    Scans blockStart (takeLoop state each) (unrollLoops state each) := by
  intro text
  rw [unrollLoops]
  split
  · next hs => rw [hs]
  · next hs =>
    rw [hs]
    split
    · next hl => simp only [takeLoop, hl, Option.map_none]
    · next hl =>
      simp only [takeLoop, hl, Option.map_some]
      rfl

/-- What stands for a conditional. -/
def chosenBody (state : Fields) (branches : List Branch) : Expansion :=
  let choice := chooseBranch state branches
  let body := match choice.1 with
    | some b => selectBranches state b.body
    | none => .literal []
  ⟨body.text, choice.2.map .reported ++ body.events⟩

/-- What the pass over conditionals takes. -/
def takeConditional (state : Fields) (behind : List Char) : Option (Expansion × List Char) :=
  (readConditional? behind).map fun c => (chosenBody state c.branches, c.rest)

/-- The pass over conditionals is a scan for the start of a conditional, also inside the branches
that it has chosen. -/
theorem scans_selectBranches (state : Fields) :
    Scans conditionalStart (takeConditional state) (selectBranches state) := by
  intro text
  rw [selectBranches]
  split
  · next hs => rw [hs]
  · next hs =>
    rw [hs]
    split
    · next hc => simp only [takeConditional, hc, Option.map_none]
    · next hc =>
      simp only [takeConditional, hc, Option.map_some, chosenBody]
      split
      · next hb => rw [hb]
      · next hb => rw [hb]

/-- What a pass over tags takes. -/
def takeTag (f : List Char → Substitution) (behind : List Char) :
    Option (Expansion × List Char) :=
  (splitTag? behind).map fun (tag, rest) => ((Segment.tag tag).substitute f, rest)

/-- A pass over tags is a scan for braces. It is defined by the parts of a text (`segments`), which
are cut one after the other. -/
theorem scans_substituteTags (f : List Char → Substitution) :
    Scans openBraces (takeTag f) (substituteTags f) := by
  intro text
  simp only [substituteTags_eq_concat]
  rw [segments]
  split
  · next hs =>
    rw [hs]
    exact eq_of (by simp [concat, Segment.substitute]) (by simp [concat, Segment.substitute])
  · next hs =>
    rw [hs]
    split
    · next ht =>
      simp only [takeTag, ht, Option.map_some, List.map_cons, concat, append_assoc]
      rfl
    · next ht =>
      simp only [takeTag, ht, Option.map_none, List.map_cons, concat]
      rfl

end Template

end LiveMarkup
