import LiveMarkup.Proofs.Dom.Freeing

/-!
# Linking trees

What the operations on links make of trees that the arena hosts.

* `get?_append`: a tree without a parent is put below a node.
* `displaces_replace`: a tree without a parent takes the place of another one.
* `drops_remove`: a tree is taken out.

Besides the nodes of these trees, only the list of a parent's children is changed (`editChildren`).
-/

namespace LiveMarkup

namespace Dom

variable {dom dom' : Dom} {id other parent : NodeId} {node : Node} {parent? : Option NodeId}
  {old new : Tree NodeId}

theorem parent?_eq (h : dom.get? id = some node) : dom.parent? id = node.parent := by
  rw [Dom.parent?, h]
  rfl

theorem contains_eq (h : dom.get? id = some node) : dom.contains id = true := by
  rw [contains, h]
  rfl

/-! ## Detaching -/

theorem detach_of_parent?_eq_none (h : dom.parent? id = none) : dom.detach id = dom := by
  rw [detach, h]

/-- To detach a node takes it out of the children of its parent, and leaves its own. -/
theorem get?_detach (h : dom.parent? id = some parent) (hne : parent ≠ id) (other : NodeId) :
    (dom.detach id).get? other =
      if other = parent then (dom.get? parent).map fun node =>
        { node with children := node.children.filter fun child => child ≠ id }
      else if other = id then (dom.get? id).map fun node => { node with parent := none }
      else dom.get? other := by
  rw [detach, h]
  simp only [get?_modify, if_neg hne]

theorem size_detach (dom : Dom) (id : NodeId) : (dom.detach id).size = dom.size := by
  rw [detach]
  split
  · rfl
  · rw [size_modify, size_modify]

theorem Sound.detach (h : dom.Sound) (id : NodeId) : (dom.detach id).Sound := by
  rw [Dom.detach]
  split
  · exact h
  · exact (h.modify id _).modify _ _

/-! ## Appending -/

/-- Between two live nodes that are not the same one, nothing stops an append. -/
theorem append_eq (hne : parent ≠ id) (hp : dom.contains parent = true)
    (hc : dom.contains id = true) :
    dom.append parent id =
      ((dom.detach id).modify id fun node => { node with parent := some parent }).modify parent
        fun node => { node with children := node.children ++ [id] } := by
  rw [append]
  simp [hne, hp, hc]

/-- A root that is appended becomes the last child of its parent. -/
theorem get?_append (hne : parent ≠ id) (hp : dom.contains parent = true)
    (hc : dom.contains id = true) (hroot : dom.parent? id = none) (other : NodeId) :
    (dom.append parent id).get? other =
      if other = parent then (dom.get? parent).map fun node =>
        { node with children := node.children ++ [id] }
      else if other = id then (dom.get? id).map fun node => { node with parent := some parent }
      else dom.get? other := by
  rw [append_eq hne hp hc, detach_of_parent?_eq_none hroot]
  simp only [get?_modify, if_neg hne]

theorem size_append (dom : Dom) (parent id : NodeId) : (dom.append parent id).size = dom.size := by
  rw [append]
  split
  · rfl
  · rw [size_modify, size_modify, size_detach]

theorem Sound.append (h : dom.Sound) (parent id : NodeId) : (dom.append parent id).Sound := by
  rw [Dom.append]
  split
  · exact h
  · exact ((h.detach id).modify id _).modify parent _

/-! ## The list of a parent's children -/

theorem substitute_of_notMem {ids : List NodeId} (h : id ∉ ids) (other : NodeId) :
    substitute id other ids = ids := by
  induction ids with
  | nil => rfl
  | cons a rest ih =>
    rw [List.mem_cons, not_or] at h
    rw [substitute, if_neg (Ne.symm h.1), ih h.2]

theorem substitute_append {before : List NodeId} (h : id ∉ before) (other : NodeId)
    (rest : List NodeId) :
    substitute id other (before ++ id :: rest) = before ++ other :: rest := by
  induction before with
  | nil => exact if_pos rfl
  | cons a before ih =>
    rw [List.mem_cons, not_or] at h
    rw [List.cons_append, substitute, if_neg (Ne.symm h.1), ih h.2]
    rfl

theorem filter_ne_of_notMem {ids : List NodeId} (h : id ∉ ids) :
    ids.filter (fun child => child ≠ id) = ids := by
  refine List.filter_eq_self.2 fun a ha => decide_eq_true ?_
  rintro rfl
  exact h ha

theorem filter_ne_append {before rest : List NodeId} (h : id ∉ before) (h' : id ∉ rest) :
    (before ++ id :: rest).filter (fun child => child ≠ id) = before ++ rest := by
  rw [List.filter_append, List.filter_cons_of_neg (by simp), filter_ne_of_notMem h,
    filter_ne_of_notMem h']

/-- The node of a handle, with the list of its children changed if it is the parent. -/
def editChildren (parent? : Option NodeId) (f : List NodeId → List NodeId) (id : NodeId)
    (node : Node) : Node :=
  if parent? = some id then { node with children := f node.children } else node

theorem map_editChildren_of_ne (h : parent? ≠ some other) (f : List NodeId → List NodeId)
    (node? : Option Node) : node?.map (editChildren parent? f other) = node? := by
  cases node? with
  | none => rfl
  | some node => rw [Option.map_some, editChildren, if_neg h]

theorem editChildren_self (f : List NodeId → List NodeId) (id : NodeId) :
    editChildren (some id) f id = fun node => { node with children := f node.children } := by
  funext node
  exact if_pos rfl

/-! ## Replacing -/

/-- The new node is linked in place of the old one. -/
def linkOver (dom : Dom) (old new : NodeId) : Dom :=
  match dom.parent? old with
  | none => dom
  | some parent =>
    (dom.modify parent fun node =>
      { node with children := substitute old new node.children }).modify new fun node =>
        { node with parent := some parent }

theorem replace_eq (hne : id ≠ other) (hc : dom.contains other = true)
    (hroot : dom.parent? other = none) :
    dom.replace id other = (dom.linkOver id other).freeTree id := by
  rw [replace, detach_of_parent?_eq_none hroot]
  simp only [hne, hc, decide_false, Bool.not_true, Bool.or_self, Bool.false_eq_true, if_false]
  rfl

/-- The new node takes the place of the old one among its siblings, and the old one its parent. -/
theorem get?_linkOver {node node' : Node} (hold : dom.get? id = some node)
    (hnew : dom.get? other = some node') (hroot : node'.parent = none)
    (hne : node.parent ≠ some other) (x : NodeId) :
    (dom.linkOver id other).get? x =
      if x = other then some { node' with parent := node.parent }
      else (dom.get? x).map (editChildren node.parent (substitute id other) x) := by
  rw [linkOver, parent?_eq hold]
  cases hp : node.parent with
  | none =>
    have hself : ({ node' with parent := none } : Node) = node' := by rw [← hroot]
    rw [map_editChildren_of_ne (by simp), hself]
    by_cases hx : x = other
    · rw [if_pos hx, hx, ← hnew]
    · rw [if_neg hx]
  | some parent =>
    have hparent : other ≠ parent := fun e => hne (by rw [hp, e])
    simp only [get?_modify, if_neg hparent, hnew, Option.map_some]
    split
    · rfl
    · split
      · next hx => rw [hx, editChildren_self]
      · next hx => rw [map_editChildren_of_ne (by simpa using Ne.symm hx)]

theorem size_linkOver (dom : Dom) (old new : NodeId) : (dom.linkOver old new).size = dom.size := by
  rw [linkOver]
  split
  · rfl
  · rw [size_modify, size_modify]

theorem Sound.linkOver (h : dom.Sound) (old new : NodeId) : (dom.linkOver old new).Sound := by
  rw [Dom.linkOver]
  split
  · exact h
  · exact (h.modify _ _).modify _ _

/-- A tree without a parent takes the place of another tree, which is freed. -/
structure Displaces (dom dom' : Dom) (parent? : Option NodeId) (old new : Tree NodeId) : Prop where
  hosts : Hosts dom' parent? new
  get? : ∀ id, id ∉ new.labels → dom'.get? id =
    if id ∈ old.labels then none
    else (dom.get? id).map (editChildren parent? (substitute old.label new.label) id)
  size : dom'.size + old.labels.length = dom.size
  sound : dom.Sound → dom'.Sound

/-- The nodes of the old tree are freed once the new one is linked in its place. -/
theorem frees_replace (hold : Hosts dom parent? old) (hnew : Hosts dom none new)
    (ho : old.labels.Nodup) (hd : old.labels.Disjoint new.labels)
    (hpo : ∀ p, parent? = some p → p ∉ old.labels) (hpn : parent? ≠ some new.label) :
    Frees (dom.linkOver old.label new.label) (dom.replace old.label new.label) old.labels := by
  have hne : old.label ≠ new.label := fun e =>
    hd old.label_mem_labels (e ▸ new.label_mem_labels)
  have hhosted : Hosts (dom.linkOver old.label new.label) parent? old := by
    refine hold.congr fun id hid => ?_
    have hout : id ≠ new.label := fun e => hd hid (e ▸ new.label_mem_labels)
    rw [get?_linkOver hold.get?_label hnew.get?_label rfl hpn, if_neg hout,
      map_editChildren_of_ne fun e => hpo id e hid]
  rw [replace_eq hne (contains_eq hnew.get?_label) (parent?_eq hnew.get?_label)]
  exact frees_freeTree hhosted ho

/-- To replace a tree by another one puts it in the very place, and frees the old one. -/
theorem displaces_replace (hold : Hosts dom parent? old) (hnew : Hosts dom none new)
    (ho : old.labels.Nodup) (hn : new.labels.Nodup) (hd : old.labels.Disjoint new.labels)
    (hpo : ∀ p, parent? = some p → p ∉ old.labels) (hpn : ∀ p, parent? = some p → p ∉ new.labels) :
    Displaces dom (dom.replace old.label new.label) parent? old new := by
  have hself : parent? ≠ some new.label := fun e => hpn _ e new.label_mem_labels
  have hlink := get?_linkOver hold.get?_label hnew.get?_label rfl hself
  have hfree := frees_replace hold hnew ho hd hpo hself
  refine ⟨?_, fun id hid => ?_, ?_, fun hs => hfree.sound (hs.linkOver _ _)⟩
  · refine hnew.reparent hn ?_ fun id hid hne => ?_
    · rw [hfree.get?, if_neg (fun hm => hd hm new.label_mem_labels), hlink, if_pos rfl,
        hnew.get?_label]
      rfl
    · rw [hfree.get?, if_neg (fun hm => hd hm hid), hlink, if_neg hne,
        map_editChildren_of_ne fun e => hpn id e hid]
  · rw [hfree.get?, hlink, if_neg (fun e : id = new.label => hid (e ▸ new.label_mem_labels))]
  · rw [hfree.size, size_linkOver]

/-! ## Removing -/

/-- A tree is taken out and freed. -/
structure Drops (dom dom' : Dom) (parent? : Option NodeId) (old : Tree NodeId) : Prop where
  get? : ∀ id, dom'.get? id =
    if id ∈ old.labels then none
    else (dom.get? id).map (editChildren parent? (List.filter fun child => child ≠ old.label) id)
  size : dom'.size + old.labels.length = dom.size
  sound : dom.Sound → dom'.Sound

/-- To remove a tree frees its nodes and closes the gap among its siblings. -/
theorem drops_remove (h : Hosts dom parent? old) (hn : old.labels.Nodup)
    (hp : ∀ p, parent? = some p → p ∉ old.labels) :
    Drops dom (dom.remove old.label) parent? old := by
  cases hparent : parent? with
  | none =>
    rw [hparent] at h
    have hfree := frees_freeTree h hn
    rw [remove, detach_of_parent?_eq_none (parent?_eq h.get?_label)]
    refine ⟨fun id => ?_, hfree.size, hfree.sound⟩
    rw [hfree.get?, map_editChildren_of_ne (by simp)]
  | some parent =>
    rw [hparent] at h
    have hout := hp parent hparent
    have hdetach := get?_detach (parent?_eq h.get?_label)
      (fun e : parent = old.label => hout (e ▸ old.label_mem_labels))
    have hhosted : Hosts (dom.detach old.label) none old := by
      refine h.reparent hn ?_ fun id hid hne => ?_
      · rw [hdetach, if_neg (fun e : old.label = parent => hout (e ▸ old.label_mem_labels)),
          if_pos rfl]
      · rw [hdetach, if_neg (fun e : id = parent => hout (e ▸ hid)), if_neg hne]
    have hfree := frees_freeTree hhosted hn
    refine ⟨fun id => ?_, by rw [remove, hfree.size, size_detach],
      fun hs => hfree.sound (hs.detach _)⟩
    rw [remove, hfree.get?]
    by_cases hid : id ∈ old.labels
    · rw [if_pos hid, if_pos hid]
    · rw [if_neg hid, if_neg hid, hdetach]
      by_cases he : id = parent
      · rw [if_pos he, he, editChildren_self]
      · rw [if_neg he, if_neg (fun e : id = old.label => hid (e ▸ old.label_mem_labels)),
          map_editChildren_of_ne (by simpa using Ne.symm he)]

end Dom

end LiveMarkup
