import LiveMarkup.Proofs.Dom.Linking

/-!
# Copying trees

Copying a hosted tree makes nodes that were not there, which form a tree with the same contents in
the same order (`Tree.Copies`), and touches no other node (`grafts_graft`, `grafts_copyTree`).
-/

namespace LiveMarkup

namespace Tree

mutual

/-- The trees differ in their labels only. -/
def Copies {α β : Type} : Tree α → Tree β → Prop
  | node _ c ts, node _ d us => c = d ∧ CopiesAll ts us

/-- Trees at one position differ in their labels only, and there are as many on both sides. -/
def CopiesAll {α β : Type} : List (Tree α) → List (Tree β) → Prop
  | [], [] => True
  | t :: ts, u :: us => Copies t u ∧ CopiesAll ts us
  | _, _ => False

end

end Tree

namespace Dom

variable {α : Type}

/-- New nodes are put into the arena, of which a tree is made. -/
structure Grafts (dom dom' : Dom) (new : Tree NodeId) : Prop where
  hosts : Hosts dom' none new
  nodup : new.labels.Nodup
  made : ∀ id ∈ new.labels, dom.get? id = none
  get? : ∀ id, id ∉ new.labels → dom'.get? id = dom.get? id
  size : dom'.size = dom.size + new.labels.length
  sound : dom'.Sound

/-- New nodes are put into the arena, of which trees below a node are made. -/
structure GraftsAll (dom dom' : Dom) (parent : NodeId) (new : List (Tree NodeId)) : Prop where
  hosts : HostsAll dom' (some parent) new
  nodup : (Tree.labelsOfAll new).Nodup
  made : ∀ id ∈ Tree.labelsOfAll new, dom.get? id = none
  get? : ∀ id, id ∉ Tree.labelsOfAll new → dom'.get? id = (dom.get? id).map
    (editChildren (some parent) (· ++ new.map Tree.label) id)
  size : dom'.size = dom.size + (Tree.labelsOfAll new).length
  sound : dom'.Sound

namespace Grafts

variable {dom dom' : Dom} {new : Tree NodeId} {parent : NodeId}

theorem congr_hosts (h : Grafts dom dom' new) {parent? : Option NodeId} {t : Tree NodeId}
    (ht : Hosts dom parent? t) : Hosts dom' parent? t :=
  ht.congr fun id hid => h.get? id fun hm => by
    have := ht.isSome_of_mem hid
    rw [h.made id hm] at this
    cases this

theorem get?_of_isSome (h : Grafts dom dom' new) {id : NodeId} (hid : (dom.get? id).isSome) :
    dom'.get? id = dom.get? id :=
  h.get? id fun hm => by
    rw [h.made id hm] at hid
    cases hid

end Grafts

/-- A grafted tree that is put below a node. -/
theorem Grafts.append {dom dom' : Dom} {new : Tree NodeId} {parent : NodeId}
    (h : Grafts dom dom' new) (hp : (dom.get? parent).isSome) :
    GraftsAll dom (dom'.append parent new.label) parent [new] := by
  have hparent : dom'.get? parent = dom.get? parent := h.get?_of_isSome hp
  have hout : parent ∉ new.labels := fun hm => by
    rw [h.made parent hm] at hp
    cases hp
  have hne : parent ≠ new.label := fun e => hout (e ▸ new.label_mem_labels)
  have hget := get?_append hne (by rw [contains, hparent, hp])
    (contains_eq h.hosts.get?_label) (parent?_eq h.hosts.get?_label)
  have hlabels := Tree.labelsOfAll_singleton new
  refine ⟨⟨h.hosts.reparent h.nodup ?_ fun id hid hne => ?_, trivial⟩, ?_, ?_, fun id hid => ?_, ?_,
    h.sound.append _ _⟩
  · rw [hget, if_neg hne.symm, if_pos rfl]
  · rw [hget, if_neg (fun e : id = parent => hout (e ▸ hid)), if_neg hne]
  · rw [hlabels]
    exact h.nodup
  · rw [hlabels]
    exact h.made
  · rw [hlabels] at hid
    rw [hget, h.get? id hid, hparent]
    by_cases he : id = parent
    · rw [if_pos he, he, editChildren_self]
      rfl
    · rw [if_neg he, if_neg (fun e : id = new.label => hid (e ▸ new.label_mem_labels)),
        map_editChildren_of_ne (by simpa using Ne.symm he)]
  · rw [hlabels, size_append, h.size]

theorem GraftsAll.nil {dom : Dom} (hs : dom.Sound) (parent : NodeId) :
    GraftsAll dom dom parent [] := by
  refine ⟨trivial, List.nodup_nil, fun id hid => ?_, fun id _ => ?_, rfl, hs⟩
  · cases hid
  · cases h : dom.get? id with
    | none => rfl
    | some node =>
      rw [Option.map_some, editChildren, List.map_nil, List.append_nil, ite_self]

theorem GraftsAll.trans {dom dom' dom'' : Dom} {parent : NodeId} {ts us : List (Tree NodeId)}
    (h : GraftsAll dom dom' parent ts) (h' : GraftsAll dom' dom'' parent us)
    (hp : (dom.get? parent).isSome) : GraftsAll dom dom'' parent (ts ++ us) := by
  have hout : parent ∉ Tree.labelsOfAll ts := fun hm => by
    rw [h.made parent hm] at hp
    cases hp
  have hdisjoint : ∀ id ∈ Tree.labelsOfAll ts, id ∉ Tree.labelsOfAll us := fun id hid hm => by
    have := h.hosts.isSome_of_mem hid
    rw [h'.made id hm] at this
    cases this
  have hkept : ∀ id ∈ Tree.labelsOfAll ts, dom''.get? id = dom'.get? id := fun id hid => by
    rw [h'.get? id (hdisjoint id hid), map_editChildren_of_ne]
    rintro ⟨⟩
    exact hout hid
  refine ⟨HostsAll.append_iff.2 ⟨h.hosts.congr hkept, h'.hosts⟩, ?_, fun id hid => ?_,
    fun id hid => ?_, ?_, h'.sound⟩
  · rw [Tree.labelsOfAll_append]
    exact h.nodup.append h'.nodup hdisjoint
  · rw [Tree.labelsOfAll_append, List.mem_append] at hid
    rcases hid with hid | hid
    · exact h.made id hid
    · have hnone := h'.made id hid
      rw [h.get? id fun hm => hdisjoint id hm hid, Option.map_eq_none_iff] at hnone
      exact hnone
  · rw [Tree.labelsOfAll_append, List.mem_append, not_or] at hid
    rw [h'.get? id hid.2, h.get? id hid.1, Option.map_map]
    congr 1
    funext node
    by_cases he : some parent = some id
    · simp [editChildren, he]
    · simp [editChildren, he]
  · rw [h'.size, h.size, Tree.labelsOfAll_append, List.length_append, Nat.add_assoc]

theorem graftAll_cons (dom : Dom) (parent : NodeId) (t : Tree α) (rest : List (Tree α)) :
    dom.graftAll parent (t :: rest) =
      ((dom.graft t).1.append parent (dom.graft t).2).graftAll parent rest := by
  rw [graftAll]

mutual

/-- A copy of a tree is put into the arena. -/
theorem grafts_graft : ∀ {dom : Dom} (t : Tree α), dom.Sound →
    ∃ new, (dom.graft t).2 = new.label ∧ Tree.Copies t new ∧ Grafts dom (dom.graft t).1 new
  | dom, .node a content children, hs => by
    have hroot : (dom.allocate content).1.get? (dom.allocate content).2 =
        some ⟨content, none, []⟩ := by
      rw [hs.get?_allocate, if_pos rfl]
    obtain ⟨us, hcopies, hall⟩ := graftsAll_graftAll (dom.allocate content).2 children
      (hs.allocate content) (by rw [hroot]; rfl)
    have hout : (dom.allocate content).2 ∉ Tree.labelsOfAll us := fun hm => by
      have := hall.made _ hm
      rw [hroot] at this
      cases this
    refine ⟨.node (dom.allocate content).2 content us, rfl, ⟨rfl, hcopies⟩, ?_⟩
    rw [graft]
    refine ⟨⟨?_, hall.hosts⟩, ?_, fun id hid => ?_, fun id hid => ?_, ?_, hall.sound⟩
    · rw [hall.get? _ hout, hroot, editChildren_self]
      rfl
    · rw [Tree.labels, List.nodup_cons]
      exact ⟨hout, hall.nodup⟩
    · rw [Tree.labels, List.mem_cons] at hid
      rcases hid with rfl | hid
      · exact hs.get?_new content
      · have hnone := hall.made id hid
        rw [hs.get?_allocate,
          if_neg (fun e : id = (dom.allocate content).2 => hout (e ▸ hid))] at hnone
        exact hnone
    · rw [Tree.labels, List.mem_cons, not_or] at hid
      rw [hall.get? id hid.2, map_editChildren_of_ne (by simpa using Ne.symm hid.1),
        hs.get?_allocate, if_neg hid.1]
    · rw [hall.size, hs.size_allocate, Tree.labels, List.length_cons]
      omega

/-- Copies of trees are put below a node. -/
theorem graftsAll_graftAll : ∀ {dom : Dom} (parent : NodeId) (ts : List (Tree α)), dom.Sound →
    (dom.get? parent).isSome →
    ∃ us, Tree.CopiesAll ts us ∧ GraftsAll dom (dom.graftAll parent ts) parent us
  | dom, parent, [], hs, _ => ⟨[], trivial, .nil hs parent⟩
  | dom, parent, t :: rest, hs, hp => by
    obtain ⟨new, hlabel, hcopy, hgraft⟩ := grafts_graft t hs
    have hfirst := hgraft.append hp
    have hlive : (((dom.graft t).1.append parent new.label).get? parent).isSome := by
      rw [hfirst.get? parent, Option.isSome_map, hp]
      intro hm
      rw [hfirst.made parent hm] at hp
      cases hp
    obtain ⟨us, hcopies, hall⟩ := graftsAll_graftAll parent rest hfirst.sound hlive
    refine ⟨new :: us, ⟨hcopy, hcopies⟩, ?_⟩
    rw [graftAll_cons, hlabel]
    exact hfirst.trans hall hp

end

theorem grafts_copyTree {dom : Dom} (hs : dom.Sound) {parent? : Option NodeId} {t : Tree NodeId}
    (h : Hosts dom parent? t) (hn : t.labels.Nodup) :
    ∃ new, (dom.copyTree t.label).2 = new.label ∧ Tree.Copies t new ∧
      Grafts dom (dom.copyTree t.label).1 new := by
  rw [copyTree, h.tree?_eq hn]
  exact grafts_graft t hs

end Dom

end LiveMarkup
