import LiveMarkup.Dom.Mutation
import LiveMarkup.Proofs.Dom.Hosting

/-!
# Freeing trees

Freeing a hosted tree frees its nodes and touches nothing else (`frees_freeTree`).
-/

namespace LiveMarkup

namespace Dom

/-- From one arena to the next, some nodes are freed and nothing else happens. -/
structure Frees (dom dom' : Dom) (ids : List NodeId) : Prop where
  get? : ∀ id, dom'.get? id = if id ∈ ids then none else dom.get? id
  size : dom'.size + ids.length = dom.size
  sound : dom.Sound → dom'.Sound

namespace Frees

variable {dom dom' dom'' : Dom} {ids ids' : List NodeId}

theorem nil (dom : Dom) : Frees dom dom [] := ⟨fun _ => by simp, rfl, id⟩

/-- What is given up in two steps is given up together. -/
theorem trans (h : Frees dom dom' ids) (h' : Frees dom' dom'' ids') :
    Frees dom dom'' (ids ++ ids') := by
  refine ⟨fun id => ?_, ?_, fun hs => h'.sound (h.sound hs)⟩
  · rw [h'.get?, h.get?]
    by_cases hm : id ∈ ids
    · simp [hm]
    · simp [hm]
  · have := h.size
    have := h'.size
    rw [List.length_append]
    omega

theorem perm (h : Frees dom dom' ids) (hp : ids.Perm ids') : Frees dom dom' ids' :=
  ⟨fun id => by simp only [h.get?, hp.mem_iff], hp.length_eq ▸ h.size, h.sound⟩

end Frees

variable {dom : Dom} {id : NodeId} {node : Node}

/-- To clear a slot gives up its node and no other one. -/
theorem frees_clear (h : dom.get? id = some node) : Frees dom (dom.clear id) [id] :=
  ⟨fun other => by simp [get?_clear], size_clear h, fun hs => hs.clear id⟩

theorem freeAll_cons (h : dom.get? id = some node) (rest : List NodeId) :
    dom.freeAll (id :: rest) = (dom.clear id).freeAll (node.children.reverse ++ rest) := by
  rw [freeAll]
  split
  · next hn =>
    rw [h] at hn
    cases hn
  · next hn =>
    rw [h] at hn
    cases hn
    rfl

/-- Freeing from the roots of hosted trees frees these trees. The number of nodes still to be freed
goes down with every one. -/
theorem frees_freeAll {dom : Dom} : ∀ {ts : List (Tree NodeId)},
    (∀ t ∈ ts, ∃ parent, Hosts dom parent t) → (Tree.labelsOfAll ts).Nodup →
    Frees dom (dom.freeAll (ts.map Tree.label)) (Tree.labelsOfAll ts)
  | [], _, _ => by
    rw [List.map_nil, freeAll]
    exact .nil dom
  | t :: rest, h, hn => by
    obtain ⟨parent, ht⟩ := h t List.mem_cons_self
    rw [Tree.labelsOfAll, t.labels_eq, List.cons_append, List.nodup_cons, List.mem_append,
      not_or] at hn
    obtain ⟨⟨hchildren, hrest⟩, hnodup⟩ := hn
    have hpending : (t.children.map Tree.label).reverse ++ rest.map Tree.label =
        (t.children.reverse ++ rest).map Tree.label := by
      rw [List.map_append, List.map_reverse]
    have hperm : (Tree.labelsOfAll (t.children.reverse ++ rest)).Perm
        (Tree.labelsOfAll t.children ++ Tree.labelsOfAll rest) := by
      rw [Tree.labelsOfAll_append]
      exact (Tree.labelsOfAll_reverse_perm t.children).append_right _
    have hhosts : ∀ u ∈ t.children.reverse ++ rest,
        ∃ parent, Hosts (dom.clear t.label) parent u := by
      intro u hu
      have hclear (hm : u ∈ t.children ∨ u ∈ rest) :
          ∀ id ∈ u.labels, (dom.clear t.label).get? id = dom.get? id := by
        intro id hid
        rw [get?_clear, if_neg]
        rintro rfl
        rcases hm with hm | hm
        · exact hchildren (Tree.labels_subset_of_mem hm hid)
        · exact hrest (Tree.labels_subset_of_mem hm hid)
      rcases List.mem_append.1 hu with hu | hu
      · rw [List.mem_reverse] at hu
        exact ⟨_, (hostsAll_iff.1 ht.children u hu).congr (hclear (.inl hu))⟩
      · obtain ⟨parent, hp⟩ := h u (List.mem_cons_of_mem _ hu)
        exact ⟨parent, hp.congr (hclear (.inr hu))⟩
    have later := frees_freeAll hhosts (hperm.nodup_iff.2 hnodup)
    rw [List.map_cons, freeAll_cons ht.get?_label, hpending, Tree.labelsOfAll, t.labels_eq]
    exact (frees_clear ht.get?_label).trans (later.perm hperm)
termination_by ts => (Tree.labelsOfAll ts).length
decreasing_by
  have hlength := hperm.length_eq
  rw [List.length_append] at hlength
  simp only [Tree.labelsOfAll, t.labels_eq, List.length_append, List.length_cons]
  omega

/-- To free a tree gives up the nodes of the tree, each once, and no other ones. -/
theorem frees_freeTree {dom : Dom} {parent : Option NodeId} {t : Tree NodeId}
    (h : Hosts dom parent t) (hn : t.labels.Nodup) : Frees dom (dom.freeTree t.label) t.labels := by
  have : Frees dom (dom.freeAll ([t].map Tree.label)) (Tree.labelsOfAll [t]) :=
    frees_freeAll (by simpa using ⟨parent, h⟩) (by simpa [Tree.labelsOfAll] using hn)
  simpa [Tree.labelsOfAll, freeTree] using this

end Dom

end LiveMarkup
