import LiveMarkup.Dom.Change
import LiveMarkup.Proofs.Dom.Copying
import Mathlib.Logic.Function.Iterate

/-!
# Links that fit together

In every arena that changes lead to from the empty one, parents and lists of children say the same,
and the list of free slots is right (`Linked.run`). The handles that the changes are given may be
stale, equal, or those of nodes above or below one another.

Where nodes are linked is seen through `Dom.parent?` and `Dom.children`, so that `detach`, `append`
and `replace` are one equation each for these two. Freeing goes on with handles that no list of
children has any more, although their nodes may still name a parent (`Dom.Loose`); when none of
them is left, the links fit together again.
-/

namespace LiveMarkup

namespace Dom

variable {dom dom' : Dom} {id other parent child old new : NodeId} {node : Node}
  {pending : List NodeId} {content : Content}

/-! ## Parents and children after the basic steps -/

theorem contains_of_parent? (h : dom.parent? id = some parent) : dom.contains id = true := by
  rw [parent?, Option.bind_eq_some_iff] at h
  obtain ⟨node, hn, -⟩ := h
  exact contains_eq hn

theorem children_eq (h : dom.get? id = some node) : dom.children id = node.children := by
  rw [children, h]
  rfl

theorem get?_eq_none (h : dom.contains id = false) : dom.get? id = none := by
  rwa [contains, Option.isSome_eq_false_iff, Option.isNone_iff_eq_none] at h

theorem tree?_of_stale (h : dom.contains id = false) : dom.tree? id = none := by
  rw [tree?]
  cases dom.slots.size with
  | zero => rfl
  | succ levels => rw [treeWithin, get?_eq_none h, Option.map_none]

theorem exists_tree?_eq (h : dom.contains id = true) : ∃ t, dom.tree? id = some t := by
  obtain ⟨node, hn⟩ := Option.isSome_iff_exists.1 h
  obtain ⟨levels, hl⟩ := Nat.exists_eq_succ_of_ne_zero (Nat.ne_zero_of_lt (index_lt_of_get? hn))
  rw [tree?, hl, treeWithin, hn]
  exact ⟨_, rfl⟩

theorem contains_of_mem_children (h : id ∈ dom.children parent) : dom.contains parent = true := by
  cases hp : dom.get? parent with
  | none => simp [children, hp] at h
  | some node => exact contains_eq hp

theorem contains_modify (dom : Dom) (id other : NodeId) (f : Node → Node) :
    (dom.modify id f).contains other = dom.contains other := by
  rw [contains, contains, get?_modify]
  split
  · next h => rw [h, Option.isSome_map]
  · rfl

theorem parent?_modify (dom : Dom) (id other : NodeId) {f : Node → Node}
    (hf : ∀ node, (f node).parent = node.parent) :
    (dom.modify id f).parent? other = dom.parent? other := by
  rw [parent?, parent?, get?_modify]
  split
  · next h =>
    subst h
    cases dom.get? other with
    | none => rfl
    | some node => exact hf node
  · rfl

theorem children_modify (dom : Dom) (id other : NodeId) {f : Node → Node}
    (hf : ∀ node, (f node).children = node.children) :
    (dom.modify id f).children other = dom.children other := by
  rw [children, children, get?_modify]
  split
  · next h =>
    subst h
    cases dom.get? other with
    | none => rfl
    | some node => exact hf node
  · rfl

theorem parent?_modify_children (dom : Dom) (id : NodeId) (f : List NodeId → List NodeId)
    (other : NodeId) :
    (dom.modify id fun node => { node with children := f node.children }).parent? other =
      dom.parent? other := parent?_modify dom id other fun _ => rfl

theorem children_modify_parent (dom : Dom) (id : NodeId) (parent : Option NodeId)
    (other : NodeId) :
    (dom.modify id fun node => { node with parent := parent }).children other =
      dom.children other := children_modify dom id other fun _ => rfl

theorem parent?_modify_parent (h : dom.contains id = true) (parent : Option NodeId)
    (other : NodeId) :
    (dom.modify id fun node => { node with parent := parent }).parent? other =
      if other = id then parent else dom.parent? other := by
  obtain ⟨node, hn⟩ := Option.isSome_iff_exists.1 h
  rw [parent?, parent?, get?_modify]
  split
  · rw [hn]
    rfl
  · rfl

theorem children_modify_children (h : dom.contains id = true) (f : List NodeId → List NodeId)
    (other : NodeId) :
    (dom.modify id fun node => { node with children := f node.children }).children other =
      if other = id then f (dom.children other) else dom.children other := by
  obtain ⟨node, hn⟩ := Option.isSome_iff_exists.1 h
  rw [children, children, get?_modify]
  split
  · next he =>
    rw [he, hn]
    rfl
  · rfl

/-! ## Links -/

/-- The links of the arena fit together: a parent is live and has the node once among its children,
and a child is live and names its parent. The list of free slots is right. -/
structure Linked (dom : Dom) : Prop where
  sound : dom.Sound
  listed : ∀ {id parent}, dom.parent? id = some parent →
    dom.contains parent = true ∧ (dom.children parent).count id = 1
  named : ∀ {id parent}, id ∈ dom.children parent →
    dom.contains id = true ∧ dom.parent? id = some parent

/-- The links fit together but for the given nodes: these are no one's children, whatever parent
they name. Another node is once among the children of its parent, and among no other ones. -/
structure Loose (dom : Dom) (pending : List NodeId) : Prop where
  sound : dom.Sound
  notMem : ∀ {id}, id ∈ pending → ∀ parent, id ∉ dom.children parent
  count : ∀ {id}, id ∉ pending → ∀ parent,
    (dom.children parent).count id = if dom.parent? id = some parent then 1 else 0

theorem Loose.named (h : dom.Loose pending) (hm : id ∈ dom.children parent) :
    dom.parent? id = some parent := by
  have hcount := h.count (fun hp => h.notMem hp parent hm) parent
  by_contra hne
  rw [if_neg hne] at hcount
  exact Nat.ne_of_gt (List.count_pos_iff.2 hm) hcount

/-- With nothing left to be freed, nodes that were only nearly linked are linked. -/
theorem Loose.linked (h : dom.Loose []) : dom.Linked := by
  refine ⟨h.sound, fun {id parent} hp => ?_, fun {id parent} hm => ?_⟩
  · have hone : (dom.children parent).count id = 1 := by rw [h.count List.not_mem_nil, if_pos hp]
    have hmem : id ∈ dom.children parent := List.count_pos_iff.1 (by omega)
    exact ⟨contains_of_mem_children hmem, hone⟩
  · exact ⟨contains_of_parent? (h.named hm), h.named hm⟩

namespace Linked

/-- The parent that a node names has it among its children. -/
theorem mem_children (h : dom.Linked) (hp : dom.parent? id = some parent) :
    id ∈ dom.children parent :=
  List.count_pos_iff.1 (by rw [(h.listed hp).2]; exact Nat.one_pos)

theorem notMem_children (h : dom.Linked) (hroot : dom.parent? id = none) (parent : NodeId) :
    id ∉ dom.children parent := fun hm => by
  rw [(h.named hm).2] at hroot
  cases hroot

/-- A node stands once among the children of its parent, and among no others. -/
theorem count_children (h : dom.Linked) (id parent : NodeId) :
    (dom.children parent).count id = if dom.parent? id = some parent then 1 else 0 := by
  split
  · next hp => exact (h.listed hp).2
  · next hp => exact List.count_eq_zero_of_not_mem fun hm => hp (h.named hm).2

theorem of_count (hs : dom.Sound) (hc : ∀ id parent,
    (dom.children parent).count id = if dom.parent? id = some parent then 1 else 0) :
    dom.Linked :=
  Loose.linked ⟨hs, fun hm => absurd hm List.not_mem_nil, fun {id} _ => hc id⟩

/-- A node without a parent may be freed. -/
theorem loose (h : dom.Linked) (hroot : dom.parent? id = none) : dom.Loose [id] := by
  refine ⟨h.sound, fun {other} hm parent => ?_, fun {other} _ => h.count_children other⟩
  rw [List.mem_singleton.1 hm]
  exact h.notMem_children hroot parent

/-- Whatever leaves parents and children alone leaves the links. -/
theorem of_same (h : dom.Linked) (hs : dom'.Sound) (hp : ∀ id, dom'.parent? id = dom.parent? id)
    (hc : ∀ id, dom'.children id = dom.children id) : dom'.Linked :=
  of_count hs fun id parent => by rw [hc, hp, h.count_children]

end Linked

theorem linked_empty : Dom.empty.Linked :=
  .of_count sound_empty fun id parent => by
    rw [children, get?_empty, parent?, get?_empty]
    rfl

/-! ## Making nodes and setting what they are -/

theorem Linked.modify (h : dom.Linked) (id : NodeId) {f : Node → Node}
    (hp : ∀ node, (f node).parent = node.parent)
    (hc : ∀ node, (f node).children = node.children) : (dom.modify id f).Linked :=
  h.of_same (h.sound.modify id f) (fun other => parent?_modify dom id other hp)
    fun other => children_modify dom id other hc

theorem Linked.modifyAttributes (h : dom.Linked) (id : NodeId)
    (f : OrderedMap String String → OrderedMap String String) :
    (dom.modifyAttributes id f).Linked :=
  h.modify id (fun node => by split <;> rfl) fun node => by split <;> rfl

theorem Linked.modifyText (h : dom.Linked) (id : NodeId) (f : String → String) :
    (dom.modifyText id f).Linked :=
  h.modify id (fun node => by split <;> rfl) fun node => by split <;> rfl

theorem Sound.parent?_allocate (h : dom.Sound) (content : Content) (id : NodeId) :
    (dom.allocate content).1.parent? id = dom.parent? id := by
  rw [parent?, parent?, h.get?_allocate]
  split
  · next he =>
    rw [he, h.get?_new]
    rfl
  · rfl

theorem Sound.children_allocate (h : dom.Sound) (content : Content) (id : NodeId) :
    (dom.allocate content).1.children id = dom.children id := by
  rw [children, children, h.get?_allocate]
  split
  · next he =>
    rw [he, h.get?_new]
    rfl
  · rfl

theorem Linked.allocate (h : dom.Linked) (content : Content) : (dom.allocate content).1.Linked :=
  h.of_same (h.sound.allocate content) (h.sound.parent?_allocate content)
    (h.sound.children_allocate content)

/-! ## Detaching -/

theorem contains_detach (dom : Dom) (id other : NodeId) :
    (dom.detach id).contains other = dom.contains other := by
  rw [detach]
  split
  · rfl
  · rw [contains_modify, contains_modify]

theorem parent?_detach (dom : Dom) (id other : NodeId) :
    (dom.detach id).parent? other = if other = id then none else dom.parent? other := by
  rw [detach]
  split
  · next h =>
    split
    · next he => rw [he, h]
    · rfl
  · next parent h =>
    rw [parent?_modify_children _ _ (List.filter fun child => child ≠ id),
      parent?_modify_parent (contains_of_parent? h)]

theorem parent?_detach_self (dom : Dom) (id : NodeId) : (dom.detach id).parent? id = none := by
  rw [parent?_detach, if_pos rfl]

theorem parent?_detach_of_ne (h : other ≠ id) :
    (dom.detach id).parent? other = dom.parent? other := by
  rw [parent?_detach, if_neg h]

/-- As a node is only once among its siblings, to detach it is to leave it out everywhere. -/
theorem Linked.children_detach (h : dom.Linked) (id other : NodeId) :
    (dom.detach id).children other = (dom.children other).filter fun child => child ≠ id := by
  have hself (hne : dom.parent? id ≠ some other) :
      (dom.children other).filter (fun child => child ≠ id) = dom.children other :=
    filter_ne_of_notMem fun hm => hne (h.named hm).2
  rw [detach]
  split
  · next hp => rw [hself (by rw [hp]; exact Option.some_ne_none other ∘ Eq.symm)]
  · next parent hp =>
    rw [children_modify_children (by rw [contains_modify]; exact (h.listed hp).1)
      (List.filter fun child => child ≠ id), children_modify_parent]
    split
    · rfl
    · next hne => rw [hself (by rw [hp]; exact fun e => hne (Option.some.inj e).symm)]

theorem count_filter_ne (id other : NodeId) (ids : List NodeId) :
    (ids.filter fun child => child ≠ id).count other =
      if other = id then 0 else ids.count other := by
  split
  · next h =>
    refine List.count_eq_zero_of_not_mem fun hm => ?_
    exact of_decide_eq_true (List.mem_filter.1 hm).2 h
  · next h => exact List.count_filter (decide_eq_true h)

/-- A detached node is a root with all that is below it. -/
theorem Linked.detach (h : dom.Linked) (id : NodeId) : (dom.detach id).Linked := by
  refine .of_count (h.sound.detach id) fun other parent => ?_
  rw [h.children_detach, count_filter_ne, parent?_detach, h.count_children]
  split
  · rfl
  · rfl

/-! ## Appending -/

theorem append_eq_self_of_not (h : ¬ (parent ≠ child ∧ dom.contains parent = true ∧
    dom.contains child = true)) : dom.append parent child = dom := by
  rw [append, if_pos]
  by_contra hc
  simp at hc
  exact h ⟨hc.1.1, hc.1.2, hc.2⟩

theorem parent?_append (hne : parent ≠ child) (hp : dom.contains parent = true)
    (hc : dom.contains child = true) (other : NodeId) :
    (dom.append parent child).parent? other =
      if other = child then some parent else dom.parent? other := by
  rw [append_eq hne hp hc, parent?_modify_children _ _ (· ++ [child]),
    parent?_modify_parent (by rw [contains_detach, hc]), parent?_detach]
  split <;> rfl

theorem children_append (hne : parent ≠ child) (hp : dom.contains parent = true)
    (hc : dom.contains child = true) (other : NodeId) :
    (dom.append parent child).children other =
      if other = parent then (dom.detach child).children other ++ [child]
      else (dom.detach child).children other := by
  rw [append_eq hne hp hc,
    children_modify_children (by rw [contains_modify, contains_detach, hp]) (· ++ [child]),
    children_modify_parent]

/-- A node may be put below any node, also below one that is below it. -/
theorem Linked.append (h : dom.Linked) (parent child : NodeId) :
    (dom.append parent child).Linked := by
  by_cases hlive : parent ≠ child ∧ dom.contains parent = true ∧ dom.contains child = true
  swap
  · rw [append_eq_self_of_not hlive]
    exact h
  obtain ⟨hne, hp, hc⟩ := hlive
  refine .of_count (h.sound.append parent child) fun id above => ?_
  have hcount := (h.detach child).count_children id above
  rw [parent?_detach] at hcount
  rw [children_append hne hp hc, parent?_append hne hp hc]
  by_cases hid : id = child
  · subst hid
    rw [if_pos rfl] at hcount ⊢
    split
    · next he => simpa [he] using hcount
    · next he => simpa [Ne.symm he] using hcount
  · rw [if_neg hid] at hcount ⊢
    split
    · rw [List.count_append, hcount, List.count_eq_zero_of_not_mem (by simpa using hid)]
      rfl
    · exact hcount

/-! ## Freeing -/

theorem parent?_clear (dom : Dom) (id other : NodeId) :
    (dom.clear id).parent? other = if other = id then none else dom.parent? other := by
  rw [parent?, parent?, get?_clear]
  split <;> rfl

theorem children_clear (dom : Dom) (id other : NodeId) :
    (dom.clear id).children other = if other = id then [] else dom.children other := by
  rw [children, children, get?_clear]
  split <;> rfl

theorem freeAll_cons_of_none (h : dom.get? id = none) (rest : List NodeId) :
    dom.freeAll (id :: rest) = dom.freeAll rest := by
  rw [freeAll]
  split
  · rfl
  · next hn =>
    rw [h] at hn
    cases hn

/-- Freeing from a list of handles: a stale one is passed over, and in place of one that is freed
come its children. -/
theorem freeAll_induction {motive : Dom → List NodeId → Dom → Prop}
    (nil : ∀ dom, motive dom [] dom)
    (stale : ∀ dom id rest, dom.get? id = none → motive dom rest (dom.freeAll rest) →
      motive dom (id :: rest) (dom.freeAll rest))
    (live : ∀ dom id rest node, dom.get? id = some node →
      motive (dom.clear id) (node.children.reverse ++ rest)
        ((dom.clear id).freeAll (node.children.reverse ++ rest)) →
      motive dom (id :: rest) ((dom.clear id).freeAll (node.children.reverse ++ rest)))
    (dom : Dom) (pending : List NodeId) : motive dom pending (dom.freeAll pending) := by
  induction dom, pending using freeAll.induct with
  | case1 dom =>
    rw [freeAll]
    exact nil dom
  | case2 dom id rest hn ih =>
    rw [freeAll_cons_of_none hn]
    exact stale dom id rest hn ih
  | case3 dom id rest node hn ih =>
    rw [freeAll_cons hn]
    exact live dom id rest node hn ih

/-- In place of a node that is freed, its children are loose. -/
theorem Loose.clear {rest : List NodeId} (h : dom.Loose (id :: rest))
    (hn : dom.get? id = some node) :
    (dom.clear id).Loose (node.children.reverse ++ rest) := by
  refine ⟨h.sound.clear id, fun {other} hm above hc => ?_, fun {other} hm above => ?_⟩
  · rw [children_clear] at hc
    split at hc
    · cases hc
    · next hne =>
      rw [List.mem_append, List.mem_reverse, ← children_eq hn] at hm
      rcases hm with hm | hm
      · exact hne (Option.some.inj ((h.named hc).symm.trans (h.named hm)))
      · exact h.notMem (List.mem_cons_of_mem id hm) above hc
  · rw [List.mem_append, List.mem_reverse, not_or, ← children_eq hn] at hm
    rw [children_clear, parent?_clear]
    by_cases hid : other = id
    · have hout := h.notMem (List.mem_cons.2 (.inl hid)) above
      rw [if_pos hid, if_neg (Option.some_ne_none above ∘ Eq.symm)]
      split
      · rfl
      · exact List.count_eq_zero_of_not_mem hout
    · have hcount := h.count (List.mem_cons.not.2 (not_or.2 ⟨hid, hm.2⟩)) above
      rw [if_neg hid, ← hcount]
      split
      · next he => rw [he, List.count_eq_zero_of_not_mem hm.1, List.count_nil]
      · rfl

/-- To free what is pending puts the links right, in whatever order it is freed. -/
theorem Loose.freeAll (h : dom.Loose pending) : (dom.freeAll pending).Linked := by
  refine freeAll_induction (motive := fun dom pending after => dom.Loose pending → after.Linked)
    (fun _ => Loose.linked) (fun dom id rest hn ih h => ih ?_)
    (fun dom id rest node hn ih h => ih (h.clear hn)) dom pending h
  refine ⟨h.sound, fun hm => h.notMem (List.mem_cons_of_mem id hm), fun {other} hm parent => ?_⟩
  by_cases hid : other = id
  · -- A stale handle names no parent, and no one has it among its children.
    have hout := h.notMem (List.mem_cons.2 (.inl hid)) parent
    rw [List.count_eq_zero_of_not_mem hout, hid, parent?, hn]
    rfl
  · exact h.count (List.mem_cons.not.2 (not_or.2 ⟨hid, hm⟩)) parent

theorem Linked.remove (h : dom.Linked) (id : NodeId) : (dom.remove id).Linked :=
  ((h.detach id).loose (parent?_detach_self dom id)).freeAll

/-! ## Replacing -/

/-- The new node stands in the place of the old one, and counts for it. -/
theorem count_substitute (old new id : NodeId) {ids : List NodeId} (h : old ∈ ids) :
    (substitute old new ids).count id + (if old = id then 1 else 0) =
      ids.count id + if new = id then 1 else 0 := by
  induction ids with
  | nil => cases h
  | cons first rest ih =>
    rw [substitute]
    by_cases hf : first = old
    · rw [if_pos hf, hf, List.count_cons, List.count_cons]
      simp only [beq_iff_eq]
      omega
    · rw [List.mem_cons] at h
      have := ih (h.resolve_left (Ne.symm hf))
      rw [if_neg hf, List.count_cons, List.count_cons]
      omega

theorem replace_eq_self_of_not (h : ¬ (old ≠ new ∧ dom.contains new = true)) :
    dom.replace old new = dom := by
  rw [replace, if_pos]
  by_contra hc
  simp at hc
  exact h hc

/-- A replacement links the new node over the old one, and then frees what is below the old one. -/
theorem replace_eq_freeTree (hne : old ≠ new) (hc : dom.contains new = true) :
    dom.replace old new = ((dom.detach new).linkOver old new).freeTree old := by
  rw [replace, if_neg (by simp [hne, hc])]
  rfl

theorem linkOver_of_parent?_eq_none (h : dom.parent? old = none) : dom.linkOver old new = dom := by
  rw [linkOver, h]

theorem parent?_linkOver (hold : dom.parent? old = some parent) (hc : dom.contains new = true)
    (other : NodeId) :
    (dom.linkOver old new).parent? other =
      if other = new then some parent else dom.parent? other := by
  rw [linkOver, hold]
  simp only
  rw [parent?_modify_parent (by rw [contains_modify, hc]),
    parent?_modify_children _ _ (substitute old new)]

theorem children_linkOver (hold : dom.parent? old = some parent)
    (hp : dom.contains parent = true) (other : NodeId) :
    (dom.linkOver old new).children other =
      if other = parent then substitute old new (dom.children other) else dom.children other := by
  rw [linkOver, hold]
  simp only
  rw [children_modify_parent, children_modify_children hp (substitute old new)]

/-- When a node without a parent has taken the place of another one, that one is loose. -/
theorem Linked.loose_linkOver (h : dom.Linked) (hne : old ≠ new) (hc : dom.contains new = true)
    (hroot : dom.parent? new = none) : (dom.linkOver old new).Loose [old] := by
  cases hold : dom.parent? old with
  | none =>
    rw [linkOver_of_parent?_eq_none hold]
    exact h.loose hold
  | some parent =>
    have hcount (id above : NodeId) : ((dom.linkOver old new).children above).count id +
        (if above = parent ∧ old = id then 1 else 0) =
          (dom.children above).count id + if above = parent ∧ new = id then 1 else 0 := by
      rw [children_linkOver hold (h.listed hold).1]
      by_cases he : above = parent
      · simp only [he, if_true, true_and]
        exact count_substitute old new id (h.mem_children hold)
      · simp only [he, if_false, false_and]
    refine ⟨h.sound.linkOver old new, fun {id} hm above => ?_, fun {id} hm above => ?_⟩
    · rw [List.mem_singleton.1 hm, ← List.count_eq_zero]
      rcases eq_or_ne parent above with rfl | habove
      · simpa [h.count_children, hold, Ne.symm hne] using hcount old parent
      · simpa [h.count_children, hold, habove, Ne.symm habove] using hcount old above
    · rw [List.mem_singleton] at hm
      rw [parent?_linkOver hold hc]
      by_cases hid : id = new
      · simpa [h.count_children, hid, hroot, hne, eq_comm] using hcount id above
      · simpa [h.count_children, hid, Ne.symm hid, Ne.symm hm] using hcount id above

/-- A node may take the place of any node, also of one that is above or below it. -/
theorem Linked.replace (h : dom.Linked) (old new : NodeId) : (dom.replace old new).Linked := by
  by_cases hlive : old ≠ new ∧ dom.contains new = true
  · rw [replace_eq_freeTree hlive.1 hlive.2]
    refine ((h.detach new).loose_linkOver hlive.1 ?_ (parent?_detach_self dom new)).freeAll
    rw [contains_detach, hlive.2]
  · rw [replace_eq_self_of_not hlive]
    exact h

/-! ## Copying and reading markup -/

/-- The second arena comes from the first one by making nodes, appending them, and setting what
nodes are. -/
inductive Makes (dom : Dom) : Dom → Prop
  | refl : Makes dom dom
  | allocate {dom' : Dom} (content : Content) (h : Makes dom dom') :
    Makes dom (dom'.allocate content).1
  | append {dom' : Dom} (parent child : NodeId) (h : Makes dom dom') :
    Makes dom (dom'.append parent child)
  | modifyAttributes {dom' : Dom} (id : NodeId)
    (f : OrderedMap String String → OrderedMap String String) (h : Makes dom dom') :
    Makes dom (dom'.modifyAttributes id f)
  | modifyText {dom' : Dom} (id : NodeId) (f : String → String) (h : Makes dom dom') :
    Makes dom (dom'.modifyText id f)

theorem Linked.makes (h : dom.Linked) (hm : Makes dom dom') : dom'.Linked := by
  induction hm with
  | refl => exact h
  | allocate content _ ih => exact ih.allocate content
  | append parent child _ ih => exact ih.append parent child
  | modifyAttributes id f _ ih => exact ih.modifyAttributes id f
  | modifyText id f _ ih => exact ih.modifyText id f

namespace Makes

mutual

theorem graft {α : Type} : ∀ {dom' : Dom} (t : Tree α), Makes dom dom' → Makes dom (dom'.graft t).1
  | _, .node _ content children, h => by
    rw [Dom.graft]
    exact graftAll _ children (h.allocate content)

theorem graftAll {α : Type} : ∀ {dom' : Dom} (parent : NodeId) (ts : List (Tree α)),
    Makes dom dom' → Makes dom (dom'.graftAll parent ts)
  | _, _, [], h => by
    rw [Dom.graftAll]
    exact h
  | _, parent, t :: rest, h => by
    rw [graftAll_cons]
    exact graftAll parent rest ((graft t h).append parent _)

end

theorem place {b : Builder} (h : Makes dom b.dom) (id : NodeId) : Makes dom (b.place id).dom := by
  rw [Builder.place]
  split
  · exact h.append _ _
  · exact h

theorem setAttributes (h : Makes dom dom') (id : NodeId) (attributes : List (String × String)) :
    Makes dom
      (attributes.foldl (fun dom (name, value) => dom.setAttribute id name value) dom') := by
  induction attributes generalizing dom' with
  | nil => exact h
  | cons _ rest ih => exact ih (h.modifyAttributes id _)

theorem addText {b : Builder} (h : Makes dom b.dom) (s : String) : Makes dom (b.addText s).dom := by
  rw [Builder.addText]
  split
  · exact place (h.allocate _) _
  · split
    · exact h.modifyText _ _
    · exact place (h.allocate _) _

theorem addElement {b : Builder} (h : Makes dom b.dom) (name : String)
    (attributes : List (String × String)) (selfClosing : Bool) :
    Makes dom (b.addElement name attributes selfClosing).dom := by
  have hfilled := (h.allocate (.element name.toLower [])).setAttributes
    (b.dom.createElement name).2 attributes
  have hplaced := place (b := ⟨_, b.openElements, b.roots⟩) hfilled (b.dom.createElement name).2
  rw [Builder.addElement]
  simp only
  split
  · exact hplaced
  · exact hplaced

theorem step {b : Builder} (h : Makes dom b.dom) (token : Html.Token) :
    Makes dom (b.step token).dom := by
  cases token with
  | startTag name attributes selfClosing => exact h.addElement name attributes selfClosing
  | endTag name => exact h
  | text s =>
    rw [Builder.step]
    split
    · exact h
    · exact h.addText s

end Makes

theorem makes_copyTree (dom : Dom) (id : NodeId) : Makes dom (dom.copyTree id).1 := by
  rw [Dom.copyTree]
  split
  · next t _ => exact Makes.refl.graft t
  · exact .refl

/-- To build from tokens is to allocate, append and write to nodes that were just made. -/
theorem makes_build (dom : Dom) (tokens : List Html.Token) : Makes dom (dom.build tokens).1 := by
  suffices key : ∀ (tokens : List Html.Token) (b : Builder), Makes dom b.dom →
      Makes dom (tokens.foldl Builder.step b).dom from key tokens _ .refl
  intro tokens
  induction tokens with
  | nil => exact fun _ hb => hb
  | cons token rest ih => exact fun b hb => ih _ (hb.step token)

theorem makes_parseFragment [Html.Tokenizer] (dom : Dom) (markup : List Char) :
    Makes dom (dom.parseFragment markup).1 :=
  makes_build dom (Html.Token.ofText markup)

/-! ## Runs -/

/-- Every change keeps the links together, whatever handles it is given. -/
theorem Linked.apply [Html.Tokenizer] (h : dom.Linked) (change : Change) :
    (change.apply dom).Linked := by
  cases change with
  | createElement tag => exact h.allocate _
  | createText s => exact h.allocate _
  | parse markup => exact h.makes (makes_parseFragment dom markup)
  | copyTree node => exact h.makes (makes_copyTree dom node)
  | append parent child => exact h.append parent child
  | replace old new => exact h.replace old new
  | remove node => exact h.remove node
  | release node => exact h.remove node
  | setText node s => exact h.modifyText node _
  | setAttribute node name value => exact h.modifyAttributes node _
  | removeAttribute node name => exact h.modifyAttributes node _

/-- Links are kept by runs, as by each of their changes. -/
theorem Linked.run [Html.Tokenizer] (h : dom.Linked) (changes : List Change) :
    (dom.run changes).Linked := by
  induction changes generalizing dom with
  | nil => exact h
  | cons change rest ih => exact ih (h.apply change)

/-! ## Freeing ends -/

/-- One turn of freeing: the first handle is taken off the list, and if its node is live, the node
is freed and its children are put in front, the last one first. -/
def freeTurn : Dom × List NodeId → Dom × List NodeId
  | (dom, []) => (dom, [])
  | (dom, id :: rest) =>
    match dom.get? id with
    | none => (dom, rest)
    | some node => (dom.clear id, node.children.reverse ++ rest)

/-- Freeing is a loop that ends, turn by turn. -/
theorem exists_iterate_freeTurn (dom : Dom) (pending : List NodeId) :
    ∃ turns, freeTurn^[turns] (dom, pending) = (dom.freeAll pending, []) := by
  refine freeAll_induction
    (motive := fun dom pending after => ∃ turns, freeTurn^[turns] (dom, pending) = (after, []))
    (fun dom => ⟨0, rfl⟩) (fun dom id rest hn ih => ?_) (fun dom id rest node hn ih => ?_)
    dom pending
  · obtain ⟨turns, ht⟩ := ih
    refine ⟨turns + 1, ?_⟩
    rw [Function.iterate_succ_apply, freeTurn, hn]
    exact ht
  · obtain ⟨turns, ht⟩ := ih
    refine ⟨turns + 1, ?_⟩
    rw [Function.iterate_succ_apply, freeTurn, hn]
    exact ht

/-- After every run of changes the links fit together and the list of free slots is right, so that
making a node does not touch one that is live. The one loop of a change, freeing, ends in every
arena, also where nodes are below themselves. -/
theorem linked_run_empty [Html.Tokenizer] (changes : List Change) :
    (Dom.empty.run changes).Linked ∧
      (∀ content id, (Dom.empty.run changes).contains id = true →
        ((Dom.empty.run changes).allocate content).2 ≠ id ∧
          ((Dom.empty.run changes).allocate content).1.get? id =
            (Dom.empty.run changes).get? id) ∧
      ∀ dom id, ∃ turns, freeTurn^[turns] (dom, [id]) = (dom.freeTree id, []) := by
  have h := linked_empty.run changes
  refine ⟨h, fun content id hid => ?_, fun dom id => exists_iterate_freeTurn dom [id]⟩
  have hne : id ≠ ((Dom.empty.run changes).allocate content).2 := by
    rintro rfl
    rw [contains, h.sound.get?_new] at hid
    cases hid
  refine ⟨hne.symm, ?_⟩
  rw [h.sound.get?_allocate, if_neg hne]

end Dom

end LiveMarkup
