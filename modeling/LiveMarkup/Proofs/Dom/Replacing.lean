import LiveMarkup.Proofs.Dom.Cycles
import LiveMarkup.Proofs.Dom.Forest

/-!
# Replacing and removing, node by node

What replacing and removing make of every handle, where the links fit together and no node is below
itself.

* `Linked.exists_get?_replace` is one equation, wherever the new node was: below the old one, beside
  it, in another tree, or in none. What is at and below the old node is freed unless it is at or
  below the new one.
* `Linked.exists_get?_remove` is that equation for removing.
* `Linked.replaces_and_removes` says what happens to whom (`Dom.Replaced`, `Dom.Removed`).

The new node is detached first. That cuts it out of the tree of the old one (`below_detach_iff`), so
that from then on two trees without common nodes are left to look at.
-/

namespace LiveMarkup

namespace Dom

variable {dom dom' : Dom} {id old new other parent : NodeId} {node : Node}

/-! ## Lists of children -/

/-- A list without either node is not changed. -/
theorem substitute_filter_of_notMem {ids : List NodeId} (hold : old ∉ ids) (hnew : new ∉ ids) :
    substitute old new (ids.filter fun child => child ≠ new) = ids := by
  rw [filter_ne_of_notMem hnew, substitute_of_notMem hold]

/-- An edit that concerns one node edits the list of the parent's children, as no other list has the
node. -/
theorem editChildren_eq {parent? : Option NodeId} {f : List NodeId → List NodeId}
    (h : id ∈ node.children → parent? = some other) (hf : ∀ {ids}, id ∉ ids → f ids = ids) :
    editChildren parent? f other node = { node with children := f node.children } := by
  rw [editChildren]
  split
  · rfl
  · next hne => rw [hf fun hm => hne (h hm)]

namespace Linked

theorem parent?_of_mem (h : dom.Linked) (hn : dom.get? other = some node)
    (hm : id ∈ node.children) : dom.parent? id = some other :=
  (h.named (by rwa [children_eq hn])).2

/-- The parent's list of children, with the node in its place. -/
theorem exists_children_eq (h : dom.Linked) (hp : dom.parent? id = some parent)
    (hn : dom.get? parent = some node) :
    ∃ before rest, node.children = before ++ id :: rest ∧ id ∉ before ∧ id ∉ rest := by
  have hm := h.mem_children hp
  have hnodup := h.nodup_children parent
  rw [children_eq hn] at hm hnodup
  obtain ⟨before, rest, hids⟩ := List.append_of_mem hm
  rw [hids, List.nodup_append, List.nodup_cons] at hnodup
  obtain ⟨-, ⟨hrest, -⟩, hbefore⟩ := hnodup
  exact ⟨before, rest, hids, fun hb => hbefore id hb id List.mem_cons_self rfl, hrest⟩

end Linked

/-! ## Removing -/

/-- What removing makes of every handle: what is at and below the node is freed, and no list has the
node any more. -/
theorem Linked.exists_get?_remove (h : dom.Linked) (ha : dom.Acyclic)
    (hid : dom.contains id = true) :
    ∃ freed : List NodeId, (∀ x, x ∈ freed ↔ dom.Below x id) ∧
      ∀ x, (dom.remove id).get? x =
        if x ∈ freed then none
        else (dom.get? x).map fun node =>
          { node with children := node.children.filter fun child => child ≠ id } := by
  obtain ⟨t, rfl, hosts, hnodup, hmem⟩ := h.exists_spans ha hid
  have hdrop := drops_remove hosts hnodup fun p hp hm => ha.not_below_parent? hp ((hmem p).1 hm)
  refine ⟨t.labels, hmem, fun x => ?_⟩
  rw [hdrop.get?]
  cases hn : dom.get? x with
  | none => rfl
  | some node =>
    rw [Option.map_some, Option.map_some, editChildren_eq (h.parent?_of_mem hn) filter_ne_of_notMem]

/-! ## Detaching -/

theorem Acyclic.detach (ha : dom.Acyclic) (id : NodeId) : (dom.detach id).Acyclic :=
  ha.of_parent? parent?_of_parent?_detach

/-- What is below a node is so still when another node is detached, but for what is at or below that
one. -/
theorem below_detach_iff (hne : old ≠ new) (hb : ¬ dom.Under old new) :
    (dom.detach new).Below id old ↔ dom.Below id old ∧ ¬ dom.Below id new := by
  have hroot := parent?_detach_self dom new
  rw [← below_iff_under hne] at hb
  constructor
  · intro hid
    have hold := Relation.ReflTransGen.mono (fun _ _ => parent?_of_parent?_detach) _ _ hid
    refine ⟨hold, fun hnew => ?_⟩
    -- Both are above the node still, so one of them is above the other.
    have hnew' : (dom.detach new).Below id new :=
      hnew.congr fun _ => parent?_detach_of_ne
    rcases below_total hid hnew' with habove | habove
    · exact hb (Relation.ReflTransGen.mono (fun _ _ => parent?_of_parent?_detach) _ _ habove)
    · exact not_below_of_root hroot hne.symm habove
  · rintro ⟨hold, hnew⟩
    induction hold using Relation.ReflTransGen.head_induction_on with
    | refl => exact .refl
    | @head a next hnext _ ih =>
      have ha : a ≠ new := by
        rintro rfl
        exact hnew .refl
      refine .head ?_ (ih fun hb => hnew (.head hnext hb))
      rw [parent?_detach_of_ne ha, hnext]

theorem below_detach_self_iff : (dom.detach new).Below id new ↔ dom.Below id new := by
  constructor
  · exact Relation.ReflTransGen.mono (fun _ _ => parent?_of_parent?_detach) _ _
  · exact Below.congr fun _ => parent?_detach_of_ne

/-! ## Linking -/

/-- A handle whose node got other links. -/
theorem get?_eq_map {p : Option NodeId → Option NodeId} {c : List NodeId → List NodeId}
    (hcontent : dom'.content? id = dom.content? id) (hparent : dom'.parent? id = p (dom.parent? id))
    (hchildren : dom'.children id = c (dom.children id)) :
    dom'.get? id = (dom.get? id).map fun node =>
      { node with parent := p node.parent, children := c node.children } := by
  rw [content?, content?] at hcontent
  cases hn : dom.get? id with
  | none =>
    rw [hn, Option.map_none, Option.map_eq_none_iff] at hcontent
    rw [hcontent, Option.map_none]
  | some node =>
    rw [hn, Option.map_some, Option.map_eq_some_iff] at hcontent
    obtain ⟨after, hafter, hcontent⟩ := hcontent
    rw [parent?_eq hafter, parent?_eq hn] at hparent
    rw [children_eq hafter, children_eq hn] at hchildren
    rw [hafter, Option.map_some, ← hcontent, ← hparent, ← hchildren]

theorem content?_modify (dom : Dom) (id other : NodeId) {f : Node → Node}
    (hf : ∀ node, (f node).content = node.content) :
    (dom.modify id f).content? other = dom.content? other := by
  rw [content?, content?, get?_modify]
  split
  · next h =>
    subst h
    cases dom.get? other with
    | none => rfl
    | some node => exact congrArg some (hf node)
  · rfl

theorem content?_detach (dom : Dom) (id other : NodeId) :
    (dom.detach id).content? other = dom.content? other := by
  rw [detach]
  split
  · rfl
  · rw [content?_modify, content?_modify]
    · exact fun _ => rfl
    · exact fun _ => rfl

theorem content?_linkOver (dom : Dom) (old new other : NodeId) :
    (dom.linkOver old new).content? other = dom.content? other := by
  rw [linkOver]
  split
  · rfl
  · rw [content?_modify, content?_modify]
    · exact fun _ => rfl
    · exact fun _ => rfl

/-- A node is detached and linked in place of another one. -/
theorem Linked.get?_linkOver_detach (h : dom.Linked) (hne : old ≠ new)
    (hnew : dom.contains new = true) (id : NodeId) :
    ((dom.detach new).linkOver old new).get? id = (dom.get? id).map fun node =>
      { node with
        parent := if id = new then dom.parent? old else node.parent
        children := substitute old new (node.children.filter fun child => child ≠ new) } := by
  have hold : (dom.detach new).parent? old = dom.parent? old := parent?_detach_of_ne hne
  have hlist (hp : dom.parent? old ≠ some id) : (dom.detach new).children id =
      substitute old new ((dom.children id).filter fun child => child ≠ new) := by
    rw [h.children_detach, substitute_of_notMem]
    exact fun hm => hp (h.named (List.mem_of_mem_filter hm)).2
  refine get?_eq_map (p := fun parent => if id = new then dom.parent? old else parent)
    (c := fun ids => substitute old new (ids.filter fun child => child ≠ new)) ?_ ?_ ?_
  · rw [content?_linkOver, content?_detach]
  · cases hp : dom.parent? old with
    | none => rw [linkOver_of_parent?_eq_none (hold.trans hp), parent?_detach]
    | some parent =>
      rw [parent?_linkOver (hold.trans hp) (by rw [contains_detach, hnew]), parent?_detach]
      split <;> rfl
  · cases hp : dom.parent? old with
    | none => rw [linkOver_of_parent?_eq_none (hold.trans hp), hlist (by simp [hp])]
    | some parent =>
      rw [children_linkOver (hold.trans hp) (by rw [contains_detach, (h.listed hp).1])]
      split
      · rw [h.children_detach]
      · next he => rw [hlist fun e => he (Option.some.inj (hp.symm.trans e)).symm]

/-! ## Replacing -/

/-- What replacing makes of every handle, wherever the new node was before: what is at and below the
old node is freed unless it is at or below the new one, and the new one is where the old one was. -/
theorem Linked.exists_get?_replace (h : dom.Linked) (ha : dom.Acyclic) (hne : old ≠ new)
    (hold : dom.contains old = true) (hnew : dom.contains new = true)
    (hb : ¬ dom.Under old new) :
    ∃ freed : List NodeId, (∀ x, x ∈ freed ↔ dom.Below x old ∧ ¬ dom.Below x new) ∧
      ∀ x, (dom.replace old new).get? x =
        if x ∈ freed then none
        else (dom.get? x).map fun node =>
          { node with
            parent := if x = new then dom.parent? old else node.parent
            children := substitute old new (node.children.filter fun child => child ≠ new) } := by
  have hl := h.detach new
  have hacyclic := ha.detach new
  have hroot := parent?_detach_self dom new
  have hlive : (dom.detach new).contains new = true := by rw [contains_detach, hnew]
  have hlive' : (dom.detach new).contains old = true := by rw [contains_detach, hold]
  have hdetached : dom.replace old new = (dom.detach new).replace old new := by
    rw [replace_eq_freeTree hne hnew, replace_eq_freeTree hne hlive,
      detach_of_parent?_eq_none hroot]
  obtain ⟨t, ht⟩ := hl.exists_spans hacyclic hlive'
  obtain ⟨u, hu⟩ := hl.exists_spans hacyclic hlive
  have hmem (x : NodeId) : x ∈ t.labels ↔ dom.Below x old ∧ ¬ dom.Below x new :=
    (ht.mem_iff x).trans (below_detach_iff hne hb)
  have hapart : t.labels.Disjoint u.labels := fun x hx hx' =>
    ((hmem x).1 hx).2 (below_detach_self_iff.1 ((hu.mem_iff x).1 hx'))
  have hhosts := hu.hosts
  rw [hroot] at hhosts
  have hfree := frees_replace ht.hosts hhosts ht.nodup hapart
    (fun p hp hm => hacyclic.not_below_parent? hp ((ht.mem_iff p).1 hm))
    (fun hp => hb (.single (parent?_of_parent?_detach (hu.label ▸ hp))))
  rw [ht.label, hu.label] at hfree
  refine ⟨t.labels, hmem, fun x => ?_⟩
  rw [hdetached, hfree.get?, h.get?_linkOver_detach hne hnew]

/-! ## What happens to whom -/

/-- A node took the place of another one, and nothing else happened. -/
structure Replaced (dom after : Dom) (old new : NodeId) : Prop where
  /-- In the list of the old node's parent, once the new one has left it, the new one is where the
  old one was. -/
  parent : ∀ {parent node}, dom.parent? old = some parent → dom.get? parent = some node →
    ∃ before rest, node.children.filter (fun child => child ≠ new) = before ++ old :: rest ∧
      after.get? parent = some { node with children := before ++ new :: rest }
  /-- The new node has the parent that the old one had, or none. -/
  placed : after.get? new = (dom.get? new).map fun node => { node with parent := dom.parent? old }
  intact : ∃ t, dom.tree? new = some t ∧ after.tree? new = some t
  freed : ∀ {id}, dom.Below id old → ¬ dom.Below id new → after.contains id = false
  /-- The parent that the new node had loses it, unless it is freed or is the parent that the new
  node has now. -/
  left : ∀ {parent node}, dom.parent? new = some parent → dom.get? parent = some node →
    ¬ dom.Below parent old → dom.parent? old ≠ some parent →
    ∃ before rest, node.children = before ++ new :: rest ∧
      after.get? parent = some { node with children := before ++ rest }
  kept : ∀ {id}, (dom.Below id old → dom.Below id new) → id ≠ new → dom.parent? old ≠ some id →
    dom.parent? new ≠ some id → after.get? id = dom.get? id

/-- A node was removed with what is below it, and nothing else happened. -/
structure Removed (dom after : Dom) (id : NodeId) : Prop where
  freed : ∀ {x}, dom.Below x id → after.contains x = false
  parent : ∀ {parent node}, dom.parent? id = some parent → dom.get? parent = some node →
    ∃ before rest, node.children = before ++ id :: rest ∧
      after.get? parent = some { node with children := before ++ rest }
  kept : ∀ {x}, ¬ dom.Below x id → dom.parent? id ≠ some x → after.get? x = dom.get? x

theorem contains_eq_false (h : dom.get? id = none) : dom.contains id = false := by
  rw [contains, h]
  rfl

theorem Linked.replaced (h : dom.Linked) (ha : dom.Acyclic) (hne : old ≠ new)
    (hold : dom.contains old = true) (hnew : dom.contains new = true)
    (hb : ¬ dom.Under old new) : Replaced dom (dom.replace old new) old new := by
  obtain ⟨freed, hfreed, hget⟩ := h.exists_get?_replace ha hne hold hnew hb
  have hlive {id : NodeId} (hid : dom.Below id old → dom.Below id new) : id ∉ freed := fun hm =>
    ((hfreed id).1 hm).2 (hid ((hfreed id).1 hm).1)
  have hself : dom.parent? old ≠ some new := fun hp => hb (.single hp)
  have hown : dom.parent? new ≠ some new := fun hp => ha.not_below_parent? hp .refl
  -- Away from the two parents no list is changed.
  have hlinked {id : NodeId} (hid : dom.Below id old → dom.Below id new)
      (ho : dom.parent? old ≠ some id) (hp : dom.parent? new ≠ some id) :
      (dom.replace old new).get? id = (dom.get? id).map fun node =>
        { node with parent := if id = new then dom.parent? old else node.parent } := by
    rw [hget, if_neg (hlive hid)]
    cases hn : dom.get? id with
    | none => rfl
    | some node =>
      rw [Option.map_some, Option.map_some, substitute_filter_of_notMem
        (fun hm => ho (h.parent?_of_mem hn hm)) fun hm => hp (h.parent?_of_mem hn hm)]
  have hkept {id : NodeId} (hid : dom.Below id old → dom.Below id new) (hn : id ≠ new)
      (ho : dom.parent? old ≠ some id) (hp : dom.parent? new ≠ some id) :
      (dom.replace old new).get? id = dom.get? id := by
    simp only [hlinked hid ho hp, if_neg hn, Option.map_id']
  have hplaced : (dom.replace old new).get? new =
      (dom.get? new).map fun node => { node with parent := dom.parent? old } := by
    simp only [hlinked (fun _ => .refl) hself hown, if_true]
  refine ⟨fun {parent node} hp hn => ?_, hplaced, ?_, fun {id} ho hn => ?_,
    fun {parent node} hp hn ho hne' => ?_, hkept⟩
  · obtain ⟨before, rest, hids, hbefore, -⟩ := h.exists_children_eq hp hn
    have hlist : node.children.filter (fun child => child ≠ new) =
        before.filter (fun child => child ≠ new) ++
          old :: rest.filter fun child => child ≠ new := by
      rw [hids, List.filter_append, List.filter_cons_of_pos (by simpa using hne)]
    refine ⟨_, _, hlist, ?_⟩
    rw [hget, if_neg (hlive fun ho => absurd ho (ha.not_below_parent? hp)), hn, Option.map_some,
      if_neg (fun e : parent = new => hself (e ▸ hp)), hlist,
      substitute_append fun hm => hbefore (List.mem_of_mem_filter hm)]
  · obtain ⟨t, rfl, hosts, hnodup, hmem⟩ := h.exists_spans ha hnew
    have hosts' : Hosts (dom.replace old t.label) (dom.parent? old) t := by
      refine hosts.reparent hnodup hplaced fun id hid hn => ?_
      have hbelow := (hmem id).1 hid
      refine hkept (fun _ => hbelow) hn (fun hp => hb ?_) fun hp => ha.not_below_parent? hp hbelow
      exact Relation.TransGen.head' hp hbelow
    exact ⟨t, hosts.tree?_eq hnodup, hosts'.tree?_eq hnodup⟩
  · refine contains_eq_false ?_
    rw [hget, if_pos ((hfreed id).2 ⟨ho, hn⟩)]
  · obtain ⟨before, rest, hids, hbefore, hrest⟩ := h.exists_children_eq hp hn
    refine ⟨before, rest, hids, ?_⟩
    rw [hget, if_neg (hlive fun hb => absurd hb ho), hn, Option.map_some,
      if_neg (fun e : parent = new => hown (e ▸ hp)), substitute_of_notMem, hids,
      filter_ne_append hbefore hrest]
    exact fun hm => hne' (h.parent?_of_mem hn (List.mem_of_mem_filter hm))

theorem Linked.removed (h : dom.Linked) (ha : dom.Acyclic) (hid : dom.contains id = true) :
    Removed dom (dom.remove id) id := by
  obtain ⟨freed, hfreed, hget⟩ := h.exists_get?_remove ha hid
  refine ⟨fun {x} hx => ?_, fun {parent node} hp hn => ?_, fun {x} hx hp => ?_⟩
  · refine contains_eq_false ?_
    rw [hget, if_pos ((hfreed x).2 hx)]
  · obtain ⟨before, rest, hids, hbefore, hrest⟩ := h.exists_children_eq hp hn
    refine ⟨before, rest, hids, ?_⟩
    rw [hget, if_neg fun hm => ha.not_below_parent? hp ((hfreed parent).1 hm), hn, Option.map_some,
      hids, filter_ne_append hbefore hrest]
  · rw [hget, if_neg fun hm => hx ((hfreed x).1 hm)]
    cases hn : dom.get? x with
    | none => rfl
    | some node =>
      rw [Option.map_some, filter_ne_of_notMem fun hm => hp (h.parent?_of_mem hn hm)]

/-- Removing keeps a forest. -/
theorem IsForest.remove (h : dom.IsForest) (hid : dom.contains id = true) :
    (dom.remove id).IsForest := by
  obtain ⟨freed, -, hget⟩ := h.linked.exists_get?_remove h.acyclic hid
  have hcases {x : NodeId} {left : Node} (hleft : (dom.remove id).get? x = some left) :
      ∃ node, dom.get? x = some node ∧
        { node with children := node.children.filter fun child => child ≠ id } = left := by
    rw [hget] at hleft
    split at hleft
    · cases hleft
    · exact Option.map_eq_some_iff.1 hleft
  refine (h.linked.remove id).isForest (acyclic_remove h.acyclic id)
    (fun {x left s} hleft hs => ?_) fun {x left} hleft => ?_
  · obtain ⟨node, hn, rfl⟩ := hcases hleft
    exact congrArg (List.filter _) (h.leaf hn hs)
  · obtain ⟨node, hn, rfl⟩ := hcases hleft
    have hw : node.content.WellFormed := h.wellFormed hn
    exact hw

/-- In a forest, a live node takes the place of another one that it is not above, and a live node is
removed, without any other effect. -/
theorem Linked.replaces_and_removes (h : dom.Linked) (ha : dom.Acyclic) :
    (∀ old new, old ≠ new → dom.contains old = true → dom.contains new = true →
      ¬ dom.Under old new → Replaced dom (dom.replace old new) old new) ∧
    ∀ id, dom.contains id = true → Removed dom (dom.remove id) id :=
  ⟨fun _ _ hne hold hnew hb => h.replaced ha hne hold hnew hb, fun _ hid => h.removed ha hid⟩

/-- The first item of a list is replaced by what is below it, which stays. Where the item is removed
instead, what is below it goes with it. -/
theorem Linked.replaces_and_removes_item :
    let list : Tree Unit := .node () (.element "ul" [])
      [.node () (.element "li" []) [.node () (.element "b" []) []], .node () (.element "li" []) []]
    let dom := (Dom.empty.graft list).1
    dom.Linked ∧ dom.Acyclic ∧ dom.children ⟨0, 0⟩ = [⟨1, 0⟩, ⟨3, 0⟩] ∧
      Replaced dom (dom.replace ⟨1, 0⟩ ⟨2, 0⟩) ⟨1, 0⟩ ⟨2, 0⟩ ∧
      (dom.replace ⟨1, 0⟩ ⟨2, 0⟩).contains ⟨1, 0⟩ = false ∧
      (dom.replace ⟨1, 0⟩ ⟨2, 0⟩).children ⟨0, 0⟩ = [⟨2, 0⟩, ⟨3, 0⟩] ∧
      Removed dom (dom.remove ⟨1, 0⟩) ⟨1, 0⟩ ∧
      (dom.remove ⟨1, 0⟩).contains ⟨2, 0⟩ = false := by
  intro list dom
  have hw : list.WellFormed := by
    simp [list, Tree.WellFormed, Tree.WellFormedAll, Content.WellFormed, OrderedMap.Distinct]
  obtain ⟨_, -, -, hone⟩ := consistsOf_empty.graft hw
  have hforest : dom.IsForest := hone.isForest
  have hlist : dom.get? ⟨0, 0⟩ = some ⟨.element "ul" [], none, [⟨1, 0⟩, ⟨3, 0⟩]⟩ := by
    simp only [dom, list]
    decide +kernel
  have hitem : dom.parent? ⟨1, 0⟩ = some ⟨0, 0⟩ := by
    simp only [dom, list]
    decide +kernel
  have hbold : dom.parent? ⟨2, 0⟩ = some ⟨1, 0⟩ := by
    simp only [dom, list]
    decide +kernel
  have hunder : ¬ dom.Under ⟨1, 0⟩ ⟨2, 0⟩ := by
    rw [under_iff_of_parent? hitem]
    exact not_below_of_root (parent?_eq hlist) (by decide)
  obtain ⟨hreplace, hremove⟩ := hforest.linked.replaces_and_removes hforest.acyclic
  have hreplaced := hreplace ⟨1, 0⟩ ⟨2, 0⟩ (by decide) (contains_of_parent? hitem)
    (contains_of_parent? hbold) hunder
  have hremoved := hremove ⟨1, 0⟩ (contains_of_parent? hitem)
  have hkids : (dom.replace ⟨1, 0⟩ ⟨2, 0⟩).children ⟨0, 0⟩ = [⟨2, 0⟩, ⟨3, 0⟩] := by
    obtain ⟨before, rest, hids, hafter⟩ := hreplaced.parent hitem hlist
    have hids : [⟨1, 0⟩, ⟨3, 0⟩] = before ++ ⟨1, 0⟩ :: rest := hids
    cases before with
    | nil =>
      obtain rfl := (List.cons.inj hids).2
      exact children_eq hafter
    | cons first before => cases before <;> simp at hids
  exact ⟨hforest.linked, hforest.acyclic, children_eq hlist, hreplaced,
    hreplaced.freed .refl fun hb => hunder ((below_iff_under (by decide)).1 hb), hkids, hremoved,
    hremoved.freed (.single hbold)⟩

end Dom

end LiveMarkup
