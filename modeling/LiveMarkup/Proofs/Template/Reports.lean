import LiveMarkup.Template.Compiler

/-!
# What compiling reports

Compiling reports defects of the template only, never one of its surroundings: no storage, no
markup, no session (`reportsTemplate_compile`).
-/

namespace LiveMarkup

/-- A defect of a template or of one of its conditions. -/
def Diagnostic.OfTemplate : Diagnostic → Prop
  | missingPlaceholder _ => True
  | loopTargetNotSequence _ => True
  | unmatchedMarker _ => True
  | conditionFailed _ _ => True
  | _ => False

theorem ofTemplate_decideCondition {condition : List Char} {state : Fields} {d : Diagnostic}
    (h : (decideCondition condition state).2 = some d) : d.OfTemplate := by
  rw [decideCondition] at h
  split at h
  · cases h
  · cases h
    exact trivial

namespace Template

/-- If the event is a report, then one of a defect of the template. -/
def Event.OfTemplate : Event → Prop
  | reported d => d.OfTemplate
  | expanded _ _ _ _ => True

/-- All that is reported is defects of the template. -/
def Expansion.ReportsTemplate (e : Expansion) : Prop := ∀ event ∈ e.events, event.OfTemplate

namespace Expansion.ReportsTemplate

variable {a b : Expansion}

theorem literal (text : List Char) : (Expansion.literal text).ReportsTemplate :=
  List.forall_mem_nil _

/-- If both parts report defects of the template only, so does the whole. -/
theorem append (ha : a.ReportsTemplate) (hb : b.ReportsTemplate) : (a ++ b).ReportsTemplate :=
  List.forall_mem_append.2 ⟨ha, hb⟩

theorem concat {parts : List Expansion} (h : ∀ part ∈ parts, part.ReportsTemplate) :
    (Expansion.concat parts).ReportsTemplate := by
  induction parts with
  | nil => exact literal []
  | cons part parts ih =>
    rw [List.forall_mem_cons] at h
    exact h.1.append (ih h.2)

/-- Two passes one after the other report what either of them reports. -/
theorem andThen {pass : List Char → Expansion} (ha : a.ReportsTemplate)
    (hpass : ∀ text, (pass text).ReportsTemplate) : (a.andThen pass).ReportsTemplate :=
  List.forall_mem_append.2 ⟨ha, hpass a.text⟩

end Expansion.ReportsTemplate

open Expansion.ReportsTemplate

theorem reportsTemplate_applyDirective (d : Directive) (state : Fields) (text : List Char) :
    (applyDirective d state text).ReportsTemplate := by
  fun_induction applyDirective d state text with
  | case1 => exact literal _
  | case2 _ _ _ _ _ ih => exact (literal _).append ih
  | case3 text before afterOpen _ arguments content rest _ ih =>
    have hblock : Expansion.ReportsTemplate ⟨d.expand arguments content state,
        [.expanded d.name arguments content state]⟩ := List.forall_mem_singleton.2 trivial
    exact ((literal _).append hblock).append ih

theorem reportsTemplate_applyDirectives (ds : List Directive) (state : Fields)
    (text : List Char) : (applyDirectives ds state text).ReportsTemplate := by
  suffices ∀ before : Expansion, before.ReportsTemplate →
      (ds.foldl (fun acc d => acc.andThen (applyDirective d state)) before).ReportsTemplate from
    this _ (literal text)
  induction ds with
  | nil => exact fun _ h => h
  | cons d ds ih =>
    exact fun before h => ih _ (h.andThen (reportsTemplate_applyDirective d state))

/-- Loops report nothing themselves, and what their bodies report is of the template. -/
theorem reportsTemplate_unrollLoops {state : Fields} {each : List Char → Inner state → Expansion}
    (heach : ∀ body item, (each body item).ReportsTemplate) (text : List Char) :
    (unrollLoops state each text).ReportsTemplate := by
  fun_induction unrollLoops state each text with
  | case1 => exact literal _
  | case2 _ _ _ _ _ ih => exact (literal _).append ih
  | case3 _ _ _ _ key content _ _ repeated ih =>
    refine ((literal _).append ?_).append ih
    dsimp only [repeated]
    split
    · exact concat (List.forall_mem_map.2 fun item _ => heach content item)
    · exact List.forall_mem_singleton.2 trivial

/-- To choose a branch is to decide conditions, and only defects of them are reported. -/
theorem ofTemplate_chooseBranch {state : Fields} {branches : List Branch} :
    ∀ d ∈ (chooseBranch state branches).2, d.OfTemplate := by
  induction branches with
  | nil => exact List.forall_mem_nil _
  | cons b rest ih =>
    rw [chooseBranch]
    split
    · exact List.forall_mem_nil _
    · next condition _ =>
      have hd : ∀ d ∈ (decideCondition condition state).2.toList, d.OfTemplate :=
        fun d hd => ofTemplate_decideCondition (Option.mem_toList.1 hd)
      dsimp only
      split
      · exact hd
      · exact List.forall_mem_append.2 ⟨hd, ih⟩

theorem reportsTemplate_selectBranches (state : Fields) (text : List Char) :
    (selectBranches state text).ReportsTemplate := by
  fun_induction selectBranches state text with
  | case1 => exact literal _
  | case2 _ _ _ _ _ ih => exact (literal _).append ih
  | case3 text before afterOpen _ c _ choice body ihbody ihrest =>
    have hbody : body.ReportsTemplate := by
      dsimp only [body]
      split
      · next b hb => exact ihbody b hb
      · exact literal []
    have hchosen : Expansion.ReportsTemplate
        ⟨body.text, choice.2.map .reported ++ body.events⟩ :=
      List.forall_mem_append.2 ⟨List.forall_mem_map.2 ofTemplate_chooseBranch, hbody⟩
    exact ((literal _).append hchosen).append ihrest

/-- A pass over tags reports what is reported for each tag. -/
theorem reportsTemplate_substituteTags {f : List Char → Substitution}
    (hf : ∀ tag, ∀ d ∈ (f tag).reported, d.OfTemplate) (text : List Char) :
    (substituteTags f text).ReportsTemplate := by
  rw [substituteTags_eq_concat]
  refine concat (List.forall_mem_map.2 fun segment _ => ?_)
  cases segment with
  | literal run => exact literal run
  | tag inner => exact List.forall_mem_map.2 (hf inner)

theorem reportsTemplate_selectTernaries (state : Fields) (text : List Char) :
    (selectTernaries state text).ReportsTemplate := by
  refine reportsTemplate_substituteTags (fun tag => ?_) text
  rw [substituteTernary]
  split
  · exact List.forall_mem_nil _
  · split
    · exact List.forall_mem_nil _
    · exact fun d hd => ofTemplate_decideCondition (Option.mem_toList.1 hd)

theorem reportsTemplate_fillPlaceholders (default : List Char) (state : Fields)
    (text : List Char) : (fillPlaceholders default state text).ReportsTemplate := by
  refine reportsTemplate_substituteTags (fun tag => ?_) text
  rw [substitutePlaceholder]
  split
  · exact List.forall_mem_singleton.2 trivial
  · split
    · exact List.forall_mem_nil _
    · exact List.forall_mem_singleton.2 trivial

/-- Compiling reports nothing but defects of the template. -/
theorem reportsTemplate_compile (settings : Settings) (template : List Char) (state : Fields) :
    (compile settings template state).ReportsTemplate := by
  induction hn : Value.fieldsDepth state using Nat.strongRecOn generalizing template state with
  | ind n ih =>
  subst hn
  rw [compile]
  have heach (body : List Char) (item : Inner state) :
      (compile settings body (itemScope item.1)).ReportsTemplate :=
    ih _ (Nat.lt_of_le_of_lt (fieldsDepth_itemScope_le item.1) item.2) body _ rfl
  exact ((((reportsTemplate_applyDirectives _ state template).andThen
    (reportsTemplate_unrollLoops heach)).andThen (reportsTemplate_selectBranches state)).andThen
    (reportsTemplate_selectTernaries state)).andThen (reportsTemplate_fillPlaceholders _ state)

end Template

end LiveMarkup
