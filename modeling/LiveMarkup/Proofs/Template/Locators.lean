import LiveMarkup.Proofs.FileTree.Joining
import LiveMarkup.Template.Source

/-!
# Locators of templates

A source of files answers a locator from one file, whose path is at or below the root of the source.
A locator that leads out of the root is refused before anything is read
(`FileSource.fetch_staysBelow`).

The path is compared with the root component by component, and by where the two lead in a tree of
files (`FileSource.LiesBelow`).
-/

namespace LiveMarkup

open FileTree

namespace FileSource

/-! ## Locators that are refused -/

/-- The locator starts over with a slash, or one of its steps leads up. -/
def LeadsOut (locator : String) : Prop := ['/'] <+: locator.toList ∨ ".." ∈ steps locator

theorem all_leadsDown_start {path : String} :
    (start path).all leadsDown = true ↔ isAbsolute path = false := by
  rw [start]
  split
  · next h => simp [h, leadsDown]
  · next h =>
    rw [Bool.not_eq_true] at h
    split
    · simp [h, leadsDown]
    · simp [h]

theorem leadsDown_of_ofStep? {step : String} {c : Component}
    (h : Component.ofStep? step = some c) : leadsDown c = true ↔ step ≠ ".." := by
  rw [Component.ofStep?] at h
  split at h
  · cases h
  · split at h
    · next hup =>
      cases h
      simpa [leadsDown] using hup
    · next hdown =>
      cases h
      simpa [leadsDown] using hdown

theorem all_leadsDown_filterMap {steps : List String} :
    (steps.filterMap Component.ofStep?).all leadsDown = true ↔ ".." ∉ steps := by
  rw [List.all_eq_true]
  constructor
  · intro h hup
    have := h .parent (List.mem_filterMap.2 ⟨"..", hup, rfl⟩)
    cases this
  · intro hup c hc
    obtain ⟨step, hstep, hc⟩ := List.mem_filterMap.1 hc
    refine (leadsDown_of_ofStep? hc).2 ?_
    rintro rfl
    exact hup hstep

theorem isContained_iff {locator : String} : isContained locator = true ↔ ¬ LeadsOut locator := by
  rw [isContained, components, List.all_append, Bool.and_eq_true, all_leadsDown_start,
    all_leadsDown_filterMap, LeadsOut, not_or, ← isAbsolute_iff, Bool.not_eq_true]

/-! ## Paths below the root -/

/-- The name in a component. -/
def nameOf? : Component → Option String
  | .name name => some name
  | _ => none

/-- The path goes on from the directory with the steps of the locator, none of which starts over or
leads up; and whatever the files are, it leads to what is at or below the directory. -/
structure LiesBelow (directory locator path : String) : Prop where
  exists_components : ∃ below, components path = components directory ++ below ∧
    .root ∉ below ∧ .parent ∉ below ∧
    below.filterMap nameOf? = (steps locator).filter fun step => !isStay step
  exists_location : ∀ (tree : FileTree) (target : Location), tree.locate path = .ok target →
    ∃ location, tree.locate directory = .ok location ∧ location <+: target

theorem filterMap_nameOf? {steps : List String} (hup : ".." ∉ steps) :
    (steps.filterMap Component.ofStep?).filterMap nameOf? =
      steps.filter fun step => !isStay step := by
  induction steps with
  | nil => rfl
  | cons step rest ih =>
    rw [List.mem_cons, not_or] at hup
    have hne : (step == "..") = false := beq_eq_false_iff_ne.2 (Ne.symm hup.1)
    rw [List.filterMap_cons, List.filter_cons, Component.ofStep?]
    cases isStay step with
    | true => exact ih hup.2
    | false =>
      rw [hne]
      exact congrArg (step :: ·) (ih hup.2)

theorem notMem_of_all_leadsDown {components : List Component}
    (h : components.all leadsDown = true) : .root ∉ components ∧ .parent ∉ components := by
  rw [List.all_eq_true] at h
  exact ⟨fun hm => Bool.false_ne_true (h _ hm), fun hm => Bool.false_ne_true (h _ hm)⟩

theorem liesBelow_path (source : FileSource) {locator : String} (h : ¬ LeadsOut locator) :
    LiesBelow source.root locator (source.path locator) := by
  have hcontained := isContained_iff.2 h
  have habsolute : isAbsolute locator = false := by
    rw [← Bool.not_eq_true, isAbsolute_iff]
    exact fun ha => h (.inl ha)
  have hup : ".." ∉ steps locator := fun hs => h (.inr hs)
  refine ⟨?_, fun tree target => prefix_of_locate_join habsolute hup⟩
  by_cases hroot : source.root = ""
  · -- The path is the locator itself, which may begin with a point.
    have hpath : source.path locator = locator := by
      rw [path, hroot, join, habsolute]
      rfl
    have hstart : (start locator).filterMap nameOf? = [] := by
      rw [start, habsolute, if_neg Bool.false_ne_true]
      split <;> rfl
    obtain ⟨hno, hno'⟩ := notMem_of_all_leadsDown hcontained
    refine ⟨components locator, ?_, hno, hno', ?_⟩
    · rw [hpath, hroot]
      rfl
    · rw [components, List.filterMap_append, hstart, filterMap_nameOf? hup, List.nil_append]
  · obtain ⟨hno, hno'⟩ := notMem_of_all_leadsDown (all_leadsDown_filterMap.2 hup)
    exact ⟨(steps locator).filterMap Component.ofStep?, components_join hroot habsolute, hno, hno',
      filterMap_nameOf? hup⟩

/-! ## What is read -/

/-- A way to read files that notes what is read. -/
def noting (read : String → Except FileFault String) (path : String) :
    StateM (List String) (Except FileFault String) := do
  modify (path :: ·)
  pure (read path)

/-- Noting what is read does not change the answer, and it is the file at one path, if any. -/
theorem run_fetchWith_noting (source : FileSource) (locator : String)
    (read : String → Except FileFault String) :
    (fetchWith (noting read) source locator).run [] =
      (Id.run (fetchWith (fun path => pure (read path)) source locator),
        if isContained locator then [source.path locator] else []) := by
  rw [fetchWith, fetchWith]
  split
  · simp only [noting, bind_assoc, pure_bind]
    rcases read (source.path locator) with (_ | _) | text
    · rfl
    · rfl
    · rfl
  · rfl

theorem fetchWith_eq_invalidLocator_iff (source : FileSource) (locator : String)
    (read : String → Except FileFault String) :
    Id.run (fetchWith (fun path => pure (read path)) source locator) =
      .error (.invalidLocator locator) ↔ LeadsOut locator := by
  rw [← not_not (a := LeadsOut locator), ← isContained_iff, fetchWith]
  split
  · next h =>
    refine iff_of_false ?_ (not_not.2 h)
    rw [pure_bind]
    rcases read (source.path locator) with (_ | _) | text
    · rintro ⟨⟩
    · rintro ⟨⟩
    · rintro ⟨⟩
  · next h => exact iff_of_true rfl h

/-- However files are read, a locator is refused exactly if it leads out of the root, and then
nothing is read. Otherwise one file is read, at or below the root. -/
theorem fetch_staysBelow (source : FileSource) (locator : String) :
    (∀ read : String → Except FileFault String,
      let noted := (fetchWith (noting read) source locator).run []
      (noted.1 = .error (.invalidLocator locator) ↔ LeadsOut locator) ∧
        (LeadsOut locator → noted.2 = []) ∧
        (¬ LeadsOut locator → noted.2 = [source.path locator])) ∧
      (∀ files : FileTree, source.fetch files locator =
        ((fetchWith (noting files.read) source locator).run []).1) ∧
      (¬ LeadsOut locator → LiesBelow source.root locator (source.path locator)) := by
  refine ⟨fun read => ?_, fun files => by rw [run_fetchWith_noting]; rfl, liesBelow_path source⟩
  rw [run_fetchWith_noting]
  refine ⟨fetchWith_eq_invalidLocator_iff source locator read, fun hout => ?_, fun hin => ?_⟩
  · exact if_neg (mt isContained_iff.1 (not_not.2 hout))
  · exact if_pos (isContained_iff.2 hin)

/-- Points and slashes more than needed do not lead out, and three points are a name. Two points do,
even if the path does not leave the root by them. -/
theorem fetch_staysBelow_of_points :
    let source : FileSource := ⟨"views/"⟩
    ¬ LeadsOut "./a//...html/" ∧ LiesBelow "views/" "./a//...html/" "views/./a//...html/" ∧
      LeadsOut "a/../b.html" ∧
      ∀ read, ((fetchWith (noting read) source "a/../b.html").run []).2 = [] := by
  intro source
  have hin : ¬ LeadsOut "./a//...html/" := isContained_iff.1 (by decide +kernel)
  have hout : LeadsOut "a/../b.html" := .inr (by decide +kernel)
  have hbelow := (fetch_staysBelow source "./a//...html/").2.2 hin
  rw [show source.path "./a//...html/" = "views/./a//...html/" by decide +kernel] at hbelow
  exact ⟨hin, hbelow, hout, fun read => ((fetch_staysBelow source "a/../b.html").1 read).2.1 hout⟩

end FileSource

end LiveMarkup
