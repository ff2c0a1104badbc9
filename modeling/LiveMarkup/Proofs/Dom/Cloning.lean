import LiveMarkup.Proofs.Dom.Building
import LiveMarkup.Proofs.Dom.Replacing
import Mathlib

/-!
# Cloning

A node is cloned by calls for each of its children, which read from the arena that they add nodes
to. In a forest the calls end, and the clone is a tree of its own: it has the same contents in the
same order, it is made of new nodes only, and no other node is touched (`Dom.Clones`,
`IsForest.clones_copyTree`).

Slots of removed nodes are used again. A new node is known by its handle, which is none of those
that were live.
-/

namespace LiveMarkup

namespace Dom

variable {dom after : Dom} {id copy : NodeId} {t new : Tree NodeId}

/-- A node was cloned with what is below it, and nothing else happened. -/
structure Clones (dom after : Dom) (id copy : NodeId) (t new : Tree NodeId) : Prop where
  /-- The calls nest no deeper than the tree has nodes. -/
  ends : ∀ calls, t.labels.length ≤ calls → copyWithin calls dom id = some (after, copy)
  original : IsForest.IsTreeOf dom id t
  clone : IsForest.IsTreeOf after copy new
  copies : t.Copies new
  parentless : after.parent? copy = none
  /-- The nodes of the clone are those that were made. -/
  made : ∀ x, after.contains x = true ∧ dom.contains x = false ↔ x ∈ new.labels
  apart : t.labels.Disjoint new.labels
  kept : ∀ x, dom.contains x = true → after.get? x = dom.get? x
  size : after.size = dom.size + t.labels.length
  forest : after.IsForest

/-- In a forest, a tree that was put into the arena is what is at and below its root. -/
theorem Grafts.isTreeOf (h : Grafts dom after new) (hforest : after.IsForest) :
    IsForest.IsTreeOf after new.label new := by
  obtain ⟨u, hu⟩ := hforest.exists_isTreeOf (contains_eq h.hosts.get?_label)
  rwa [← h.hosts.eq_of_label hu.hosts hu.label.symm] at hu

/-- Cloning a live node of a forest ends, with a tree of its own. -/
theorem IsForest.clones_copyTree (h : dom.IsForest) (hid : dom.contains id = true) :
    ∃ t new, Clones dom (dom.copyTree id).1 id (dom.copyTree id).2 t new := by
  obtain ⟨t, ht⟩ := h.exists_isTreeOf hid
  obtain rfl := ht.label
  obtain ⟨new, hroot, hcopies, hgraft⟩ := grafts_copyTree h.sound ht.hosts ht.nodup
  have hplants := hgraft.plants
  have hforest : (dom.copyTree t.label).1.IsForest :=
    hplants.isForest h (h.linked.makes (makes_copyTree dom t.label))
      ⟨hcopies.wellFormed ht.wellFormed, trivial⟩
  rw [hroot]
  refine ⟨t, new, fun calls hcalls => ?_, ht, hgraft.isTreeOf hforest, hcopies,
    parent?_eq hgraft.hosts.get?_label, fun x => ?_, fun x hx hnew => ?_,
    fun x => hplants.get?_of_contains, ?_, hforest⟩
  · rw [ht.hosts.copyWithin_eq h.sound hcalls, ← hroot, Dom.copyTree, ht.tree?_eq]
  · rw [hplants.contains_iff, Tree.labelsOfAll_singleton]
  · have hold := ht.hosts.isSome_of_mem hx
    rw [hgraft.made x hnew] at hold
    cases hold
  · rw [hgraft.size, ← hcopies.alike.length_labels]

/-- A list is cloned when its first item was removed. The clone is put into the slots of the item,
under other handles. -/
theorem IsForest.clones_copyTree_of_list :
    let list : Tree Unit := .node () (.element "ul" [])
      [.node () (.element "li" []) [.node () (.element "b" []) []],
        .node () (.element "li" [("class", "x")]) [.node () (.text "y") []]]
    let full := (Dom.empty.graft list).1
    let dom := full.remove ⟨1, 0⟩
    let cloned := dom.copyTree ⟨0, 0⟩
    full.children ⟨0, 0⟩ = [⟨1, 0⟩, ⟨3, 0⟩] ∧ full.children ⟨1, 0⟩ = [⟨2, 0⟩] ∧
      dom.IsForest ∧ dom.contains ⟨0, 0⟩ = true ∧
      (∃ t new, Clones dom cloned.1 ⟨0, 0⟩ cloned.2 t new) ∧
      cloned.2 = ⟨2, 1⟩ ∧ cloned.1.children ⟨2, 1⟩ = [⟨1, 1⟩] ∧
      cloned.1.outerHtml ⟨2, 1⟩ = "<ul><li class=\"x\">y</li></ul>" := by
  intro list full dom cloned
  have hw : list.WellFormed := by
    simp [list, Tree.WellFormed, Tree.WellFormedAll, Content.WellFormed, OrderedMap.Distinct]
  obtain ⟨_, -, -, hconsists⟩ := consistsOf_empty.graft hw
  have hfull : full.IsForest := hconsists.isForest
  have hitem : full.contains ⟨1, 0⟩ = true := by
    simp only [full, list]
    decide +kernel
  have hforest : dom.IsForest := hfull.remove hitem
  have hlist : dom.contains ⟨0, 0⟩ = true := by
    simp only [dom, full, list]
    cbv
  refine ⟨?_, ?_, hforest, hlist, hforest.clones_copyTree hlist, ?_, ?_, ?_⟩
  all_goals
    simp only [cloned, dom, full, list]
    cbv

end Dom

end LiveMarkup
