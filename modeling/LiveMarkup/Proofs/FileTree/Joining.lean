import LiveMarkup.FileTree.Component
import LiveMarkup.Proofs.FileTree

/-!
# Joined paths

A path that is joined to the path of a directory, and does not start at the root, has the components
of the directory and behind them its own steps (`FileTree.components_join`). If none of its steps
leads up, what it leads to is at or below the directory (`FileTree.prefix_of_locate_join`).
-/

namespace LiveMarkup

namespace FileTree

variable {tree : FileTree} {location target : Location} {directory path rest : String}

theorem steps_ne_nil (path : String) : steps path ≠ [] := by
  rw [steps, ne_eq, List.map_eq_nil_iff]
  exact List.splitOnP_ne_nil _ _

theorem isAbsolute_iff : isAbsolute path = true ↔ ['/'] <+: path.toList := by
  rw [isAbsolute, beq_iff_eq]
  cases path.toList with
  | nil => simp
  | cons c l => simp [eq_comm]

/-- Between the path of a directory and one that is joined to it stands a slash, which may be the
last one of the directory. -/
theorem exists_join_eq (hd : directory ≠ "") (hp : isAbsolute path = false) :
    ∃ above, join directory path = above ++ "/" ++ path ∧
      (directory = above ∨ directory = above ++ "/") := by
  rw [join, hp, if_neg Bool.false_ne_true]
  split
  · next hlast =>
    rw [List.getLast?_eq_none_iff, String.toList_eq_nil_iff] at hlast
    exact absurd hlast hd
  · next hlast =>
    obtain ⟨above, habove⟩ := List.getLast?_eq_some_iff.1 hlast
    have hdirectory : directory = String.ofList above ++ "/" := by
      rw [← String.toList_inj, habove]
      simp
    exact ⟨String.ofList above, by rw [hdirectory], .inr hdirectory⟩
  · exact ⟨directory, rfl, .inl rfl⟩

theorem steps_slash (path : String) : steps (path ++ "/") = steps path ++ [""] := by
  have h := steps_append_slash path ""
  rwa [String.append_empty] at h

theorem isAbsolute_append (hp : path ≠ "") (rest : String) :
    isAbsolute (path ++ rest) = isAbsolute path := by
  have hlist : path.toList ≠ [] := mt String.toList_eq_nil_iff.1 hp
  rw [isAbsolute, isAbsolute, String.toList_append, List.head?_append_of_ne_nil _ hlist]

theorem start_slash (hp : path ≠ "") : start (path ++ "/") = start path := by
  rw [start, start, isAbsolute_append hp, steps_slash,
    List.head?_append_of_ne_nil _ (steps_ne_nil path)]

theorem start_append_slash (path rest : String) :
    start (path ++ "/" ++ rest) = start (path ++ "/") := by
  have hne : path ++ "/" ≠ "" := by simp
  rw [start, start, isAbsolute_append hne, steps_append_slash, steps_slash,
    List.head?_append_of_ne_nil _ (steps_ne_nil path),
    List.head?_append_of_ne_nil _ (steps_ne_nil path)]

theorem components_join (hd : directory ≠ "") (hp : isAbsolute path = false) :
    components (join directory path) =
      components directory ++ (steps path).filterMap Component.ofStep? := by
  obtain ⟨above, hjoin, hdirectory⟩ := exists_join_eq hd hp
  have hstart : start (join directory path) = start directory := by
    rw [hjoin, start_append_slash]
    rcases hdirectory with rfl | rfl
    · exact start_slash hd
    · rfl
  have hsteps : (steps above).filterMap Component.ofStep? =
      (steps directory).filterMap Component.ofStep? := by
    rcases hdirectory with rfl | rfl
    · rfl
    · rw [steps_slash, List.filterMap_append]
      exact (List.append_nil _).symm
  rw [components, hstart, hjoin, steps_append_slash, List.filterMap_append, hsteps, components,
    List.append_assoc]

/-! ## Where a joined path leads -/

/-- Steps of which none leads up stay below where they begin. -/
theorem prefix_of_follow {steps : List String} (hup : ".." ∉ steps)
    (hf : tree.follow location steps = .ok target) : location <+: target := by
  induction steps generalizing location with
  | nil =>
    cases hf
    exact List.prefix_refl _
  | cons step rest ih =>
    rw [List.mem_cons, not_or] at hup
    rw [follow_cons (content?_of_follow_cons hf)] at hf
    obtain ⟨next, hnext, hf⟩ := exists_of_bind_eq_ok hf
    refine List.IsPrefix.trans ?_ (ih hup.2 hf)
    rw [enter] at hnext
    split at hnext
    · cases hnext
      exact List.prefix_refl _
    · rw [if_neg (mt beq_iff_eq.1 (Ne.symm hup.1))] at hnext
      split at hnext
      · cases hnext
      · cases hnext
        exact List.prefix_append location [step]

theorem isPath_of_append (h : isPath (path ++ rest) = true) : isPath path = true := by
  simp only [isPath, String.toList_append, List.contains_append, String.utf8ByteSize_append,
    Bool.and_eq_true, Bool.not_eq_true', Bool.or_eq_false_iff, decide_eq_true_eq] at h ⊢
  exact ⟨h.1.1, by omega⟩

theorem locate_eq_ok_iff : tree.locate path = .ok target ↔
    isPath path = true ∧ tree.follow [] (steps path) = .ok target := by
  rw [locate]
  split
  · next h => rw [and_iff_right h]
  · next h =>
    constructor
    · rintro ⟨⟩
    · exact fun hpath => absurd hpath.1 h

/-- A path without steps up that is joined to a directory leads to what is at or below it. -/
theorem prefix_of_locate_join (hp : isAbsolute path = false) (hup : ".." ∉ steps path)
    (h : tree.locate (join directory path) = .ok target) :
    ∃ location, tree.locate directory = .ok location ∧ location <+: target := by
  by_cases hd : directory = ""
  · subst hd
    exact ⟨[], rfl, List.nil_prefix⟩
  obtain ⟨above, hjoin, hdirectory⟩ := exists_join_eq hd hp
  rw [hjoin] at h
  obtain ⟨hpath, hf⟩ := locate_eq_ok_iff.1 h
  rw [steps_append_slash, follow_append] at hf
  obtain ⟨location, habove, hf⟩ := exists_of_bind_eq_ok hf
  refine ⟨location, ?_, prefix_of_follow hup hf⟩
  rcases hdirectory with rfl | rfl
  · rw [String.append_assoc] at hpath
    exact locate_eq_ok_iff.2 ⟨isPath_of_append hpath, habove⟩
  · refine locate_eq_ok_iff.2 ⟨isPath_of_append hpath, ?_⟩
    obtain ⟨step, later, hsteps⟩ := List.exists_cons_of_ne_nil (steps_ne_nil path)
    rw [hsteps] at hf
    rw [steps_slash, follow_append, habove]
    exact follow_cons (content?_of_follow_cons hf) "" []

end FileTree

end LiveMarkup
