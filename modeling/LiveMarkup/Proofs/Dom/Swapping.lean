import LiveMarkup.Proofs.Dom.Retouching

/-!
# Trees in place of trees

What an arena hosts after some trees took the place of others: `Dom.Swaps` for one tree below a
parent or at the root, `Dom.SwapsAll` for trees among the children of one parent. Every other live
node is what it was, but for the list of the parent's children.

Swaps among the children of a parent can be made one after the other (`SwapsAll.trans`).
-/

namespace LiveMarkup

namespace Dom

/-- A tree takes the place of another one below a parent. -/
structure Swaps (dom dom' : Dom) (parent? : Option NodeId) (old new : Tree NodeId) : Prop where
  hosts : Hosts dom' parent? new
  nodup : new.labels.Nodup
  /-- The nodes of the new tree were nodes of the old one, or no nodes. -/
  made : ∀ id ∈ new.labels, id ∈ old.labels ∨ dom.get? id = none
  get? : ∀ id, id ∉ new.labels → dom'.get? id =
    if id ∈ old.labels then none
    else (dom.get? id).map (editChildren parent? (substitute old.label new.label) id)
  size : dom'.size + old.labels.length = dom.size + new.labels.length
  sound : dom'.Sound

/-- Trees take the place of others below a parent, which then has the children `kids`. -/
structure SwapsAll (dom dom' : Dom) (parent : NodeId) (kids : List NodeId)
    (olds news : List (Tree NodeId)) : Prop where
  hosts : HostsAll dom' (some parent) news
  nodup : (Tree.labelsOfAll news).Nodup
  made : ∀ id ∈ Tree.labelsOfAll news, id ∈ Tree.labelsOfAll olds ∨ dom.get? id = none
  get? : ∀ id, id ∉ Tree.labelsOfAll news → dom'.get? id =
    if id ∈ Tree.labelsOfAll olds then none
    else (dom.get? id).map (editChildren (some parent) (fun _ => kids) id)
  size : dom'.size + (Tree.labelsOfAll olds).length = dom.size + (Tree.labelsOfAll news).length
  sound : dom'.Sound

variable {dom dom' dom'' : Dom} {parent? : Option NodeId} {parent : NodeId} {old new : Tree NodeId}
  {kids kids' : List NodeId} {olds news olds' news' : List (Tree NodeId)} {id : NodeId}
  {node : Node}

/-! ## Lists of children -/

theorem substitute_self (id : NodeId) (ids : List NodeId) : substitute id id ids = ids := by
  induction ids with
  | nil => rfl
  | cons a rest ih =>
    rw [substitute]
    split
    · next h => rw [h]
    · rw [ih]

theorem map_editChildren_substitute_self (parent? : Option NodeId) (old id : NodeId)
    (node? : Option Node) :
    node?.map (editChildren parent? (substitute old old) id) = node? := by
  cases node? with
  | none => rfl
  | some node => rw [Option.map_some, editChildren, substitute_self, ite_self]

/-- What a change makes of the one list that it is made to. -/
theorem map_editChildren_const (h : dom.get? parent = some node) (f : List NodeId → List NodeId)
    (hf : f node.children = kids) (id : NodeId) :
    (dom.get? id).map (editChildren (some parent) f id) =
      (dom.get? id).map (editChildren (some parent) (fun _ => kids) id) := by
  by_cases he : some parent = some id
  · obtain rfl := Option.some.inj he
    rw [h, Option.map_some, Option.map_some, editChildren, editChildren, if_pos rfl, if_pos rfl, hf]
  · rw [map_editChildren_of_ne he, map_editChildren_of_ne he]

/-! ## One tree -/

/-- The root of a tree is retouched, and trees take the place of its children. -/
theorem Swaps.of_children {c content : Content} {ts us : List (Tree NodeId)}
    (hs : Hosts dom parent? (.node id c ts)) (hn : (Tree.node id c ts).labels.Nodup)
    (hr : Retouches dom dom' id content) (h : SwapsAll dom' dom'' id (us.map Tree.label) ts us) :
    Swaps dom dom'' parent? (.node id c ts) (.node id content us) := by
  have hroot := hr.get?_self hs.1
  rw [Tree.labels, List.nodup_cons] at hn
  have hout : id ∉ Tree.labelsOfAll us := fun hm => by
    rcases h.made id hm with hm | hm
    · exact hn.1 hm
    · rw [hroot] at hm
      cases hm
  refine ⟨⟨?_, h.hosts⟩, List.nodup_cons.2 ⟨hout, h.nodup⟩, fun x hx => ?_, fun x hx => ?_, ?_,
    h.sound⟩
  · rw [h.get? id hout, if_neg hn.1, hroot, editChildren_self]
    rfl
  · rcases List.mem_cons.1 hx with rfl | hx
    · exact .inl List.mem_cons_self
    · rcases h.made x hx with hm | hm
      · exact .inl (List.mem_cons_of_mem _ hm)
      · rw [hr.get?] at hm
        split at hm
        · next he => exact .inl (he ▸ List.mem_cons_self)
        · exact .inr hm
  · rw [Tree.labels, List.mem_cons, not_or] at hx
    rw [Tree.label, Tree.label, map_editChildren_substitute_self, h.get? x hx.2,
      map_editChildren_of_ne (by simpa using Ne.symm hx.1), hr.get?, if_neg hx.1]
    simp only [Tree.labels, List.mem_cons, hx.1, false_or]
  · have := h.size
    have := hr.size
    simp only [Tree.labels, List.length_cons]
    omega

/-- A tree is replaced by a grafted one. -/
theorem Swaps.of_displaces (hg : Grafts dom dom' new)
    (hd : Displaces dom' dom'' parent? old new) : Swaps dom dom'' parent? old new := by
  refine ⟨hd.hosts, hg.nodup, fun id hm => .inr (hg.made id hm), fun id hm => ?_, ?_,
    hd.sound hg.sound⟩
  · rw [hd.get? id hm, hg.get? id hm]
  · rw [hd.size, hg.size]

/-! ## Trees among the children of a parent -/

theorem SwapsAll.of_swaps {kids' : List NodeId} (h : Swaps dom dom' (some parent) old new)
    (hp : dom.get? parent = some node) (hkids : node.children = kids ++ old.label :: kids')
    (hout : old.label ∉ kids) :
    SwapsAll dom dom' parent (kids ++ new.label :: kids') [old] [new] := by
  have hlist : substitute old.label new.label node.children = kids ++ new.label :: kids' := by
    rw [hkids, substitute_append hout]
  have hedit := map_editChildren_const hp (substitute old.label new.label) hlist
  refine ⟨⟨h.hosts, trivial⟩, ?_, ?_, ?_, ?_, h.sound⟩
  · rw [Tree.labelsOfAll_singleton]
    exact h.nodup
  · rw [Tree.labelsOfAll_singleton, Tree.labelsOfAll_singleton]
    exact h.made
  · rw [Tree.labelsOfAll_singleton, Tree.labelsOfAll_singleton]
    exact fun id hm => by rw [h.get? id hm, hedit id]
  · rw [Tree.labelsOfAll_singleton, Tree.labelsOfAll_singleton]
    exact h.size

theorem SwapsAll.of_drops (hs : dom.Sound) (h : Drops dom dom' (some parent) old)
    (hp : dom.get? parent = some node) (hkids : node.children = kids ++ old.label :: kids')
    (hout : old.label ∉ kids) (hout' : old.label ∉ kids') :
    SwapsAll dom dom' parent (kids ++ kids') [old] [] := by
  have hlist : node.children.filter (fun child => child ≠ old.label) = kids ++ kids' := by
    rw [hkids, filter_ne_append hout hout']
  have hedit := map_editChildren_const hp (List.filter fun child => child ≠ old.label) hlist
  refine ⟨trivial, List.nodup_nil, fun id hm => ?_, fun id _ => ?_, ?_, h.sound hs⟩
  · cases hm
  · rw [Tree.labelsOfAll_singleton, h.get? id, hedit id]
  · rw [Tree.labelsOfAll_singleton]
    exact h.size

theorem SwapsAll.of_graftsAll (h : GraftsAll dom dom' parent news)
    (hp : dom.get? parent = some node) :
    SwapsAll dom dom' parent (node.children ++ news.map Tree.label) [] news := by
  have hedit := map_editChildren_const hp (· ++ news.map Tree.label) rfl
  refine ⟨h.hosts, h.nodup, fun id hm => .inr (h.made id hm), fun id hm => ?_, h.size, h.sound⟩
  rw [h.get? id hm, hedit id]
  exact (if_neg List.not_mem_nil).symm

theorem SwapsAll.nil (hs : dom.Sound) (hp : dom.get? parent = some node) :
    SwapsAll dom dom parent node.children [] [] := by
  have := SwapsAll.of_graftsAll (.nil hs parent) hp
  rwa [List.map_nil, List.append_nil] at this

/-- A node outside of the trees is a node still. -/
theorem SwapsAll.get?_of_isSome (h : SwapsAll dom dom' parent kids olds news)
    (hid : (dom.get? id).isSome) (hout : id ∉ Tree.labelsOfAll olds) :
    id ∉ Tree.labelsOfAll news ∧
      dom'.get? id = (dom.get? id).map (editChildren (some parent) (fun _ => kids) id) := by
  have hnew : id ∉ Tree.labelsOfAll news := fun hm => by
    rcases h.made id hm with hm | hm
    · exact hout hm
    · rw [hm] at hid
      cases hid
  exact ⟨hnew, by rw [h.get? id hnew, if_neg hout]⟩

theorem SwapsAll.congr_hosts (h : SwapsAll dom dom' parent kids olds news)
    {ts : List (Tree NodeId)} (ht : HostsAll dom parent? ts) (hp : parent ∉ Tree.labelsOfAll ts)
    (hd : ∀ id ∈ Tree.labelsOfAll ts, id ∉ Tree.labelsOfAll olds) : HostsAll dom' parent? ts :=
  ht.congr fun id hm => by
    rw [(h.get?_of_isSome (ht.isSome_of_mem hm) (hd id hm)).2, map_editChildren_of_ne]
    rintro ⟨⟩
    exact hp hm

theorem SwapsAll.trans (h : SwapsAll dom dom' parent kids olds news)
    (h' : SwapsAll dom' dom'' parent kids' olds' news') (hp : (dom.get? parent).isSome)
    (hpo : parent ∉ Tree.labelsOfAll olds) (hlive : HostsAll dom (some parent) olds')
    (hd : ∀ id ∈ Tree.labelsOfAll olds', id ∉ Tree.labelsOfAll olds) :
    SwapsAll dom dom'' parent kids' (olds ++ olds') (news ++ news') := by
  have hpn : parent ∉ Tree.labelsOfAll news := (h.get?_of_isSome hp hpo).1
  have hdn : ∀ id ∈ Tree.labelsOfAll news, id ∉ Tree.labelsOfAll olds' := fun id hm hm' =>
    (h.get?_of_isSome (hlive.isSome_of_mem hm') (hd id hm')).1 hm
  have hnews : ∀ id ∈ Tree.labelsOfAll news, id ∉ Tree.labelsOfAll news' := fun id hm =>
    (h'.get?_of_isSome (h.hosts.isSome_of_mem hm) (hdn id hm)).1
  refine ⟨HostsAll.append_iff.2 ⟨h'.congr_hosts h.hosts hpn hdn, h'.hosts⟩, ?_, fun id hm => ?_,
    fun id hm => ?_, ?_, h'.sound⟩
  · rw [Tree.labelsOfAll_append]
    exact h.nodup.append h'.nodup hnews
  · rw [Tree.labelsOfAll_append, List.mem_append] at hm ⊢
    rcases hm with hm | hm
    · exact (h.made id hm).imp_left .inl
    · rcases h'.made id hm with ho | hnone
      · exact .inl (.inr ho)
      · rw [h.get? id fun hn => hnews id hn hm] at hnone
        by_cases ho : id ∈ Tree.labelsOfAll olds
        · exact .inl (.inl ho)
        · rw [if_neg ho, Option.map_eq_none_iff] at hnone
          exact .inr hnone
  · rw [Tree.labelsOfAll_append, List.mem_append, not_or] at hm
    rw [h'.get? id hm.2, h.get? id hm.1, Tree.labelsOfAll_append]
    by_cases ho : id ∈ Tree.labelsOfAll olds'
    · rw [if_pos ho, if_pos (List.mem_append_right _ ho)]
    · by_cases ho' : id ∈ Tree.labelsOfAll olds
      · rw [if_neg ho, if_pos ho', if_pos (List.mem_append_left _ ho')]
        rfl
      · rw [if_neg ho, if_neg ho', if_neg (by simp [ho, ho']), Option.map_map]
        congr 1
        funext node
        by_cases he : some parent = some id
        · simp [editChildren, he]
        · simp [editChildren, he]
  · have := h.size
    have := h'.size
    rw [Tree.labelsOfAll_append, Tree.labelsOfAll_append, List.length_append, List.length_append]
    omega

end Dom

end LiveMarkup
