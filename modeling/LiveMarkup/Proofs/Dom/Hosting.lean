import LiveMarkup.Dom.Tree
import LiveMarkup.Proofs.Dom.Slots
import Mathlib.Data.List.Basic
import Mathlib.Data.List.Perm.Subperm

/-!
# Trees in the arena

A tree is hosted by an arena if every node of it is what its label names there: the content, the
children in order, and the parent (`Dom.Hosts`). A hosted tree is not touched by what happens at
handles outside of it (`Hosts.congr`), it is the only one at its root (`Hosts.eq_of_label`), and it
is what `Dom.tree?` gives (`Hosts.tree?_eq`).
-/

namespace LiveMarkup

namespace Tree

variable {α : Type}

/-- What the root is. -/
def content : Tree α → Content
  | node _ c _ => c

/-- The trees below the root. -/
def children : Tree α → List (Tree α)
  | node _ _ ts => ts

theorem labels_eq (t : Tree α) : t.labels = t.label :: labelsOfAll t.children := by
  cases t
  rfl

theorem labelsOfAll_eq_flatMap (ts : List (Tree α)) : labelsOfAll ts = ts.flatMap labels := by
  induction ts with
  | nil => rfl
  | cons t rest ih => rw [labelsOfAll, ih, List.flatMap_cons]

theorem labelsOfAll_append (ts us : List (Tree α)) :
    labelsOfAll (ts ++ us) = labelsOfAll ts ++ labelsOfAll us := by
  simp only [labelsOfAll_eq_flatMap, List.flatMap_append]

theorem labelsOfAll_singleton (t : Tree α) : labelsOfAll [t] = t.labels := by
  rw [labelsOfAll, labelsOfAll, List.append_nil]

theorem labelsOfAll_reverse_perm (ts : List (Tree α)) :
    (labelsOfAll ts.reverse).Perm (labelsOfAll ts) := by
  simp only [labelsOfAll_eq_flatMap]
  exact (List.reverse_perm ts).flatMap_right labels

theorem label_mem_labels (t : Tree α) : t.label ∈ t.labels := by
  rw [labels_eq]
  exact List.mem_cons_self

/-- The labels of one tree stand among those of all, in their order. -/
theorem labels_sublist_of_mem {t : Tree α} {ts : List (Tree α)} (h : t ∈ ts) :
    t.labels.Sublist (labelsOfAll ts) := by
  obtain ⟨before, after, rfl⟩ := List.append_of_mem h
  rw [labelsOfAll_append, labelsOfAll]
  exact (List.sublist_append_left _ _).trans (List.sublist_append_right _ _)

theorem labels_subset_of_mem {t : Tree α} {ts : List (Tree α)} (h : t ∈ ts) :
    t.labels ⊆ labelsOfAll ts := (labels_sublist_of_mem h).subset

theorem map_label_sublist (ts : List (Tree α)) : (ts.map label).Sublist (labelsOfAll ts) := by
  induction ts with
  | nil => exact .slnil
  | cons t rest ih =>
    rw [List.map_cons, labelsOfAll, t.labels_eq]
    exact (ih.trans (List.sublist_append_right _ _)).cons_cons _

theorem map_label_subset (ts : List (Tree α)) : ts.map label ⊆ labelsOfAll ts :=
  (map_label_sublist ts).subset

end Tree

namespace Dom

mutual

/-- The arena hosts the tree, below the parent. -/
def Hosts (dom : Dom) (parent : Option NodeId) : Tree NodeId → Prop
  | .node id content children =>
    dom.get? id = some ⟨content, parent, children.map Tree.label⟩ ∧ HostsAll dom (some id) children

/-- The arena hosts every tree of the list, below one parent. -/
def HostsAll (dom : Dom) (parent : Option NodeId) : List (Tree NodeId) → Prop
  | [] => True
  | t :: rest => Hosts dom parent t ∧ HostsAll dom parent rest

end

variable {dom dom' : Dom} {parent parent' : Option NodeId} {t u : Tree NodeId}
  {ts us : List (Tree NodeId)} {id : NodeId}

theorem hostsAll_iff : HostsAll dom parent ts ↔ ∀ t ∈ ts, Hosts dom parent t := by
  induction ts with
  | nil => simp [HostsAll]
  | cons t rest ih => rw [HostsAll, ih, List.forall_mem_cons]

theorem HostsAll.append_iff :
    HostsAll dom parent (ts ++ us) ↔ HostsAll dom parent ts ∧ HostsAll dom parent us := by
  simp only [hostsAll_iff, List.forall_mem_append]

namespace Hosts

theorem get?_label (h : Hosts dom parent t) :
    dom.get? t.label = some ⟨t.content, parent, t.children.map Tree.label⟩ := by
  cases t
  exact h.1

theorem children (h : Hosts dom parent t) : HostsAll dom (some t.label) t.children := by
  cases t
  exact h.2

/-- A tree stands somewhere if its root does and its children stand below it. -/
theorem intro
    (hroot : dom.get? t.label = some ⟨t.content, parent, t.children.map Tree.label⟩)
    (hchildren : HostsAll dom (some t.label) t.children) : Hosts dom parent t := by
  cases t
  exact ⟨hroot, hchildren⟩

end Hosts

mutual

/-- All labels of a tree that stands somewhere are handles of live nodes. -/
theorem Hosts.isSome_of_mem : ∀ {parent : Option NodeId} {t : Tree NodeId},
    Hosts dom parent t → id ∈ t.labels → (dom.get? id).isSome
  | _, .node a _ children, h, hm => by
    rw [Tree.labels, List.mem_cons] at hm
    rcases hm with rfl | hm
    · rw [h.1]
      rfl
    · exact HostsAll.isSome_of_mem h.2 hm

theorem HostsAll.isSome_of_mem : ∀ {parent : Option NodeId} {ts : List (Tree NodeId)},
    HostsAll dom parent ts → id ∈ Tree.labelsOfAll ts → (dom.get? id).isSome
  | _, [], _, hm => by cases hm
  | _, t :: rest, h, hm => by
    rw [Tree.labelsOfAll, List.mem_append] at hm
    rcases hm with hm | hm
    · exact Hosts.isSome_of_mem h.1 hm
    · exact HostsAll.isSome_of_mem h.2 hm

end

mutual

/-- A tree is hosted as long as its nodes are not touched. -/
theorem Hosts.congr : ∀ {parent : Option NodeId} {t : Tree NodeId}, Hosts dom parent t →
    (∀ id ∈ t.labels, dom'.get? id = dom.get? id) → Hosts dom' parent t
  | _, .node a _ children, h, hd => by
    refine ⟨(hd a List.mem_cons_self).trans h.1, HostsAll.congr h.2 fun id hm => hd id ?_⟩
    exact List.mem_cons_of_mem _ hm

theorem HostsAll.congr : ∀ {parent : Option NodeId} {ts : List (Tree NodeId)},
    HostsAll dom parent ts → (∀ id ∈ Tree.labelsOfAll ts, dom'.get? id = dom.get? id) →
    HostsAll dom' parent ts
  | _, [], _, _ => trivial
  | _, _ :: _, h, hd =>
    ⟨h.1.congr fun id hm => hd id (List.mem_append_left _ hm),
      h.2.congr fun id hm => hd id (List.mem_append_right _ hm)⟩

end

/-- A tree whose root was linked to another parent is hosted below that one. -/
theorem Hosts.reparent (h : Hosts dom parent t) (hn : t.labels.Nodup)
    (hroot : dom'.get? t.label = (dom.get? t.label).map fun node => { node with parent := parent' })
    (hd : ∀ id ∈ t.labels, id ≠ t.label → dom'.get? id = dom.get? id) : Hosts dom' parent' t := by
  rw [h.get?_label, Option.map_some] at hroot
  rw [t.labels_eq, List.nodup_cons] at hn
  refine .intro hroot (h.children.congr fun id hm => hd id ?_ ?_)
  · rw [t.labels_eq]
    exact List.mem_cons_of_mem _ hm
  · rintro rfl
    exact hn.1 hm

/-! ## The tree of a node -/

mutual

/-- With as many levels as the tree has nodes, reading it off ends. -/
theorem Hosts.treeWithin_eq : ∀ {parent : Option NodeId} {t : Tree NodeId} {levels : Nat},
    Hosts dom parent t → t.labels.length ≤ levels → dom.treeWithin levels t.label = some t
  | _, .node a content children, 0, _, hl => by
    simp [Tree.labels] at hl
  | _, .node a content children, levels + 1, h, hl => by
    rw [Tree.labels, List.length_cons, Nat.add_le_add_iff_right] at hl
    rw [Tree.label, treeWithin, h.1, Option.map_some, HostsAll.filterMap_treeWithin_eq h.2 hl]

theorem HostsAll.filterMap_treeWithin_eq : ∀ {parent : Option NodeId} {ts : List (Tree NodeId)}
    {levels : Nat}, HostsAll dom parent ts → (Tree.labelsOfAll ts).length ≤ levels →
    (ts.map Tree.label).filterMap (dom.treeWithin levels) = ts
  | _, [], _, _, _ => rfl
  | _, t :: rest, levels, h, hl => by
    rw [Tree.labelsOfAll, List.length_append] at hl
    rw [List.map_cons, List.filterMap_cons, h.1.treeWithin_eq (by omega),
      h.2.filterMap_treeWithin_eq (by omega)]

end

/-- At one node there stands one tree only. -/
theorem Hosts.eq_of_label (h : Hosts dom parent t) (h' : Hosts dom parent' u)
    (hl : t.label = u.label) : t = u := by
  have ht : dom.treeWithin (max t.labels.length u.labels.length) t.label = some t :=
    h.treeWithin_eq (Nat.le_max_left _ _)
  have hu : dom.treeWithin (max t.labels.length u.labels.length) u.label = some u :=
    h'.treeWithin_eq (Nat.le_max_right _ _)
  rw [hl, hu] at ht
  exact (Option.some.inj ht).symm

/-- There are not more live nodes than slots. -/
theorem length_le_size_slots {ids : List NodeId} (hn : ids.Nodup)
    (hl : ∀ id ∈ ids, (dom.get? id).isSome) : ids.length ≤ dom.slots.size := by
  have hinj : ∀ a ∈ ids, ∀ b ∈ ids, a.index = b.index → a = b :=
    fun a ha b hb => eq_of_index_of_isSome (hl a ha) (hl b hb)
  have hnodup : (ids.map NodeId.index).Nodup := (List.nodup_map_iff_inj_on hn).2 hinj
  have hsub : ids.map NodeId.index ⊆ List.range dom.slots.size := by
    intro i hi
    obtain ⟨a, ha, rfl⟩ := List.mem_map.1 hi
    obtain ⟨node, hna⟩ := Option.isSome_iff_exists.1 (hl a ha)
    exact List.mem_range.2 (index_lt_of_get? hna)
  simpa using (hnodup.subperm hsub).length_le

theorem Hosts.length_le (h : Hosts dom parent t) (hn : t.labels.Nodup) :
    t.labels.length ≤ dom.slots.size := length_le_size_slots hn fun _ => h.isSome_of_mem

theorem Hosts.tree?_eq (h : Hosts dom parent t) (hn : t.labels.Nodup) :
    dom.tree? t.label = some t := h.treeWithin_eq (h.length_le hn)

end Dom

end LiveMarkup
