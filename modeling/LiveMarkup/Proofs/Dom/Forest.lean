import LiveMarkup.Proofs.Dom.Alignment
import LiveMarkup.Proofs.Dom.Descent

/-!
# Forests

An arena is a forest if its links fit together and no node is above itself (`Dom.IsForest`). Every
live node of a forest is the root of a hosted tree, whose nodes are those at or below it
(`IsForest.exists_isTreeOf`).
-/

namespace LiveMarkup

namespace Dom

/-- The links of the arena fit together, no node is above itself, text nodes are leaves, and each
attribute is there once. -/
structure IsForest (dom : Dom) : Prop where
  sound : dom.Sound
  mem_children : ∀ {id parent}, dom.parent? id = some parent →
    ∃ node, dom.get? parent = some node ∧ id ∈ node.children
  parent?_of_mem : ∀ {id parent node}, dom.get? parent = some node → id ∈ node.children →
    dom.parent? id = some parent
  nodup : ∀ {id node}, dom.get? id = some node → node.children.Nodup
  acyclic : ∀ id, ¬ Relation.TransGen (fun id parent => dom.parent? id = some parent) id id
  leaf : ∀ {id node s}, dom.get? id = some node → node.content = .text s → node.children = []
  wellFormed : ∀ {id node}, dom.get? id = some node → node.content.WellFormed

variable {dom : Dom} {id parent : NodeId} {node : Node}

namespace IsForest

theorem linked (h : dom.IsForest) : dom.Linked := by
  refine ⟨h.sound, fun {id parent} hp => ?_, fun {id parent} hm => ?_⟩
  · obtain ⟨node, hn, hmem⟩ := h.mem_children hp
    rw [children_eq hn]
    exact ⟨contains_eq hn, List.count_eq_one_of_mem (h.nodup hn) hmem⟩
  · obtain ⟨node, hn⟩ := Option.isSome_iff_exists.1 (contains_of_mem_children hm)
    rw [children_eq hn] at hm
    have hp := h.parent?_of_mem hn hm
    exact ⟨contains_of_parent? hp, hp⟩

/-- A tree is what stands at and below a node. -/
structure IsTreeOf (dom : Dom) (id : NodeId) (t : Tree NodeId) : Prop extends Spans dom id t where
  wellFormed : t.WellFormed

end IsForest

/-- Linked nodes that are not below themselves, with leaves and attributes in shape, make a
forest. -/
theorem Linked.isForest (h : dom.Linked) (ha : dom.Acyclic)
    (hleaf : ∀ {id node s}, dom.get? id = some node → node.content = .text s → node.children = [])
    (hw : ∀ {id node}, dom.get? id = some node → node.content.WellFormed) : dom.IsForest := by
  refine ⟨h.sound, fun {id parent} hp => ?_, fun {id parent node} hn hm => ?_,
    fun {id node} hn => ?_, ha, hleaf, hw⟩
  · obtain ⟨node, hn⟩ := Option.isSome_iff_exists.1 (h.listed hp).1
    refine ⟨node, hn, ?_⟩
    rw [← children_eq hn]
    exact h.mem_children hp
  · rw [← children_eq hn] at hm
    exact (h.named hm).2
  · rw [← children_eq hn]
    exact h.nodup_children id

mutual

/-- What stands in a forest is a wellformed tree. -/
theorem Hosts.wellFormed (hforest : dom.IsForest) : ∀ {parent? : Option NodeId} {t : Tree NodeId},
    Hosts dom parent? t → t.WellFormed
  | _, .node _ _ _, h =>
    ⟨hforest.wellFormed h.1, fun _ hs => List.map_eq_nil_iff.1 (hforest.leaf h.1 hs),
      HostsAll.wellFormedAll hforest h.2⟩

theorem HostsAll.wellFormedAll (hforest : dom.IsForest) : ∀ {parent? : Option NodeId}
    {ts : List (Tree NodeId)}, HostsAll dom parent? ts → Tree.WellFormedAll ts
  | _, [], _ => trivial
  | _, _ :: _, h => ⟨Hosts.wellFormed hforest h.1, HostsAll.wellFormedAll hforest h.2⟩

end

/-- Every live node of a forest is the root of a tree. -/
theorem IsForest.exists_isTreeOf (h : dom.IsForest) (hid : (dom.get? id).isSome) :
    ∃ t, IsForest.IsTreeOf dom id t := by
  obtain ⟨t, ht⟩ := h.linked.exists_spans h.acyclic hid
  exact ⟨t, ht, ht.hosts.wellFormed h⟩

/-! ## Hosted trees make up a forest -/

/-- What is hosted at a node inside of hosted trees: the node is among the roots, or a child of a
node that is hosted as well. -/
structure HostedWithin (dom : Dom) (parent? : Option NodeId) (ts : List (Tree NodeId)) (x : NodeId)
    (t : Tree NodeId) : Prop where
  label : t.label = x
  wellFormed : t.WellFormed
  sublist : t.labels.Sublist (Tree.labelsOfAll ts)
  hosts : Hosts dom parent? t ∧ t ∈ ts ∨
    ∃ above grand?, Hosts dom grand? above ∧ t ∈ above.children ∧ Hosts dom (some above.label) t

mutual

/-- At each label of a tree that stands somewhere there is a tree inside it that stands there. -/
theorem Hosts.exists_hostedWithin : ∀ {parent? : Option NodeId} {t : Tree NodeId},
    Hosts dom parent? t → t.WellFormed → id ∈ t.labels → ∃ u, HostedWithin dom parent? [t] id u
  | parent?, .node a c ts, h, hw, hm => by
    have hlabels : Tree.labelsOfAll [Tree.node a c ts] = a :: Tree.labelsOfAll ts := by
      simp [Tree.labelsOfAll, Tree.labels]
    rw [Tree.labels, List.mem_cons] at hm
    rcases hm with rfl | hm
    · exact ⟨_, rfl, hw, by rw [hlabels]; exact List.Sublist.refl _, .inl ⟨h, List.mem_cons_self⟩⟩
    · obtain ⟨u, hu⟩ := HostsAll.exists_hostedWithin h.2 hw.2.2 hm
      refine ⟨u, hu.label, hu.wellFormed, hlabels ▸ hu.sublist.cons a, .inr ?_⟩
      rcases hu.hosts with ⟨hhosts, hmem⟩ | habove
      · exact ⟨.node a c ts, parent?, h, hmem, hhosts⟩
      · exact habove

theorem HostsAll.exists_hostedWithin : ∀ {parent? : Option NodeId} {ts : List (Tree NodeId)},
    HostsAll dom parent? ts → Tree.WellFormedAll ts → id ∈ Tree.labelsOfAll ts →
    ∃ u, HostedWithin dom parent? ts id u
  | _, [], _, _, hm => by cases hm
  | parent?, t :: ts, h, hw, hm => by
    rw [Tree.labelsOfAll, List.mem_append] at hm
    rcases hm with hm | hm
    · obtain ⟨u, hu⟩ := h.1.exists_hostedWithin hw.1 hm
      have hsub := hu.sublist
      rw [Tree.labelsOfAll_singleton] at hsub
      exact ⟨u, hu.label, hu.wellFormed, hsub.trans (List.sublist_append_left _ _),
        hu.hosts.imp_left fun hr => ⟨hr.1, by simpa using .inl (List.mem_singleton.1 hr.2)⟩⟩
    · obtain ⟨u, hu⟩ := h.2.exists_hostedWithin hw.2 hm
      exact ⟨u, hu.label, hu.wellFormed, hu.sublist.trans (List.sublist_append_right _ _),
        hu.hosts.imp_left fun hr => ⟨hr.1, List.mem_cons_of_mem _ hr.2⟩⟩

end

namespace HostedWithin

variable {ts : List (Tree NodeId)} {t : Tree NodeId}

theorem exists_hosts (h : HostedWithin dom none ts id t) : ∃ parent?, Hosts dom parent? t := by
  rcases h.hosts with ⟨hh, -⟩ | ⟨above, -, -, -, hh⟩
  · exact ⟨none, hh⟩
  · exact ⟨some above.label, hh⟩

theorem get?_eq (h : HostedWithin dom none ts id t) (hn : dom.get? id = some node) :
    node.content = t.content ∧ node.children = t.children.map Tree.label := by
  obtain ⟨parent?, hh⟩ := h.exists_hosts
  have := hh.get?_label
  rw [h.label, hn] at this
  cases this
  exact ⟨rfl, rfl⟩

theorem exists_above (h : HostedWithin dom none ts id t) (hp : dom.parent? id = some parent) :
    ∃ above grand?, above.label = parent ∧ Hosts dom grand? above ∧ t ∈ above.children := by
  rcases h.hosts with ⟨hh, -⟩ | ⟨above, grand?, ha, hmem, hh⟩
  · rw [← h.label, parent?_eq hh.get?_label] at hp
    cases hp
  · rw [← h.label, parent?_eq hh.get?_label] at hp
    exact ⟨above, grand?, Option.some.inj hp, ha, hmem⟩

end HostedWithin

theorem length_labels_lt_of_mem_children {α : Type} {t u : Tree α} (h : u ∈ t.children) :
    u.labels.length < t.labels.length := by
  obtain ⟨before, after, hts⟩ := List.append_of_mem h
  rw [t.labels_eq, hts, Tree.labelsOfAll_append, Tree.labelsOfAll]
  simp only [List.length_cons, List.length_append]
  omega

/-- The arena is made up of trees without parents. -/
structure ConsistsOf (dom : Dom) (ts : List (Tree NodeId)) : Prop where
  sound : dom.Sound
  hosts : HostsAll dom none ts
  nodup : (Tree.labelsOfAll ts).Nodup
  wellFormed : Tree.WellFormedAll ts
  mem_of_isSome : ∀ id, (dom.get? id).isSome → id ∈ Tree.labelsOfAll ts

theorem consistsOf_empty : ConsistsOf Dom.empty [] :=
  ⟨sound_empty, trivial, List.nodup_nil, trivial, fun id hid => by
    rw [get?_empty] at hid
    cases hid⟩

/-- To graft a tree adds a copy of it as the last one. -/
theorem ConsistsOf.graft {ts : List (Tree NodeId)} (h : ConsistsOf dom ts) {α : Type} {t : Tree α}
    (hw : t.WellFormed) :
    ∃ new, (dom.graft t).2 = new.label ∧ t.Copies new ∧
      ConsistsOf (dom.graft t).1 (ts ++ [new]) := by
  obtain ⟨new, hlabel, hcopy, hgraft⟩ := grafts_graft t h.sound
  have hlabels : Tree.labelsOfAll (ts ++ [new]) = Tree.labelsOfAll ts ++ new.labels := by
    simp [Tree.labelsOfAll_append, Tree.labelsOfAll]
  have hold : HostsAll (dom.graft t).1 none ts := hostsAll_iff.2 fun u hu =>
    hgraft.congr_hosts (hostsAll_iff.1 h.hosts u hu)
  refine ⟨new, hlabel, hcopy, hgraft.sound, HostsAll.append_iff.2 ⟨hold, hgraft.hosts, trivial⟩, ?_,
    Tree.wellFormedAll_append_iff.2 ⟨h.wellFormed, hcopy.wellFormed hw, trivial⟩, fun id hid => ?_⟩
  · rw [hlabels]
    refine h.nodup.append hgraft.nodup fun id hm hm' => ?_
    have := h.hosts.isSome_of_mem hm
    rw [hgraft.made id hm'] at this
    cases this
  · rw [hlabels, List.mem_append]
    by_cases hm : id ∈ new.labels
    · exact .inr hm
    · rw [hgraft.get? id hm] at hid
      exact .inl (h.mem_of_isSome id hid)

theorem ConsistsOf.isForest {ts : List (Tree NodeId)} (hts : ConsistsOf dom ts) : dom.IsForest := by
  obtain ⟨hs, h, hn, hw, hall⟩ := hts
  have hosted {id : NodeId} {node : Node} (hid : dom.get? id = some node) :
      ∃ t, HostedWithin dom none ts id t :=
    h.exists_hostedWithin hw (hall id (by rw [hid]; rfl))
  -- The tree of a node is smaller than that of its parent.
  have smaller : ∀ {a b : NodeId}, Relation.TransGen (fun id parent => dom.parent? id = some parent)
      a b → ∀ {t u : Tree NodeId} {p? q? : Option NodeId}, Hosts dom p? t → Hosts dom q? u →
      t.label = a → u.label = b → t.labels.length < u.labels.length := by
    intro a b hab
    induction hab with
    | single hp =>
      intro t u p? q? ht hu hta hub
      obtain ⟨v, hv⟩ := hosted (hta ▸ ht.get?_label)
      obtain ⟨above, grand?, hlabel, habove, hmem⟩ := hv.exists_above hp
      obtain ⟨r?, hv'⟩ := hv.exists_hosts
      rw [ht.eq_of_label hv' (hta.trans hv.label.symm),
          hu.eq_of_label habove (hub.trans hlabel.symm)]
      exact length_labels_lt_of_mem_children hmem
    | tail hab hp ih =>
      intro t u p? q? ht hu hta hub
      obtain ⟨node, hn⟩ := Option.isSome_iff_exists.1 (contains_of_parent? hp)
      obtain ⟨v, hv⟩ := hosted hn
      obtain ⟨above, grand?, hlabel, habove, hmem⟩ := hv.exists_above hp
      obtain ⟨r?, hv'⟩ := hv.exists_hosts
      rw [hu.eq_of_label habove (hub.trans hlabel.symm)]
      exact (ih ht hv' hta hv.label).trans (length_labels_lt_of_mem_children hmem)
  refine ⟨hs, fun {id parent} hp => ?_, fun {id parent node} hparent hm => ?_,
    fun {id node} hid => ?_, fun id hid => ?_, fun {id node s} hid hc => ?_,
    fun {id node} hid => ?_⟩
  · obtain ⟨node, hid⟩ := Option.isSome_iff_exists.1 (contains_of_parent? hp)
    obtain ⟨t, ht⟩ := hosted hid
    obtain ⟨above, grand?, rfl, habove, hmem⟩ := ht.exists_above hp
    exact ⟨_, habove.get?_label, ht.label ▸ List.mem_map_of_mem hmem⟩
  · obtain ⟨t, ht⟩ := hosted hparent
    obtain ⟨p?, ht'⟩ := ht.exists_hosts
    rw [(ht.get?_eq hparent).2] at hm
    obtain ⟨u, hu, rfl⟩ := List.mem_map.1 hm
    rw [parent?_eq (hostsAll_iff.1 ht'.children u hu).get?_label, ht.label]
  · obtain ⟨t, ht⟩ := hosted hid
    have hlabels := ht.sublist.nodup hn
    rw [t.labels_eq, List.nodup_cons] at hlabels
    rw [(ht.get?_eq hid).2]
    exact hlabels.2.sublist (Tree.map_label_sublist t.children)
  · obtain ⟨parent, hp, -⟩ := Relation.TransGen.head'_iff.1 hid
    obtain ⟨node, hn⟩ := Option.isSome_iff_exists.1 (contains_of_parent? hp)
    obtain ⟨t, ht⟩ := hosted hn
    obtain ⟨p?, ht'⟩ := ht.exists_hosts
    exact absurd (smaller hid ht' ht' ht.label ht.label) (Nat.lt_irrefl _)
  · obtain ⟨⟨a, c, us⟩, ht⟩ := hosted hid
    rw [(ht.get?_eq hid).2,
      show us = [] from ht.wellFormed.2.1 s ((ht.get?_eq hid).1.symm.trans hc)]
    rfl
  · obtain ⟨⟨a, c, us⟩, ht⟩ := hosted hid
    rw [(ht.get?_eq hid).1]
    exact ht.wellFormed.1

/-- A root is below itself only. -/
theorem not_below_of_root {other : NodeId} (h : dom.parent? id = none) (hne : id ≠ other) :
    ¬ dom.Below id other := fun hb => by
  rcases Relation.ReflTransGen.cases_head hb with he | ⟨parent, hp, -⟩
  · exact hne he
  · exact Option.some_ne_none parent (hp.symm.trans h)

/-- Two trees that are put into an empty arena make up a forest, and their roots are not below one
another. -/
theorem isForest_graft_graft {α β : Type} {t : Tree α} {u : Tree β} (ht : t.WellFormed)
    (hu : u.WellFormed) :
    let first := Dom.empty.graft t
    let second := first.1.graft u
    second.1.IsForest ∧ second.1.contains first.2 = true ∧ second.1.contains second.2 = true ∧
      ¬ second.1.Below first.2 second.2 ∧ ¬ second.1.Below second.2 first.2 := by
  intro first second
  obtain ⟨one, hone, -, hconsists⟩ := consistsOf_empty.graft ht
  obtain ⟨two, htwo, -, hconsists⟩ := hconsists.graft hu
  obtain ⟨hhosts, hhosts', -⟩ := hconsists.hosts
  have hnodup := hconsists.nodup
  rw [List.nil_append, List.singleton_append, Tree.labelsOfAll, Tree.labelsOfAll,
    Tree.labelsOfAll, List.append_nil] at hnodup
  have hne : one.label ≠ two.label := fun he =>
    List.disjoint_of_nodup_append hnodup one.label_mem_labels (he ▸ two.label_mem_labels)
  rw [show first.2 = one.label from hone, show second.2 = two.label from htwo]
  exact ⟨hconsists.isForest, contains_eq hhosts.get?_label, contains_eq hhosts'.get?_label,
    not_below_of_root (parent?_eq hhosts.get?_label) hne,
    not_below_of_root (parent?_eq hhosts'.get?_label) hne.symm⟩

end Dom

end LiveMarkup
