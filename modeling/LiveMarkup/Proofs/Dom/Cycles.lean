import LiveMarkup.Html.Tokenizer
import LiveMarkup.Proofs.Dom.Planting
import LiveMarkup.Proofs.Dom.Traversing

/-!
# Changes that put a node below itself

Appending a node to one that is below it, and putting a node in the place of one that is below it,
links the node below itself (`Change.Loops`). No other change does (`Linked.acyclic_apply_iff`). So
in a run without such changes, and in no other one, every arena on the way is made up of trees
(`treelike_along_run_iff`).
-/

namespace LiveMarkup

namespace Dom

variable {dom dom' : Dom} {id parent child old new : NodeId} {pending : List NodeId}

/-! ## Changed parents -/

theorem Acyclic.of_parent? (h : dom.Acyclic)
    (hp : ∀ {id parent}, dom'.parent? id = some parent → dom.parent? id = some parent) :
    dom'.Acyclic := fun id hid => h id (Relation.TransGen.mono (fun _ _ => hp) _ _ hid)

theorem Linked.contains_of_under (h : dom.Linked) (hu : dom.Under id parent) :
    dom.contains id = true ∧ dom.contains parent = true := by
  constructor
  · obtain ⟨next, hp, -⟩ := Relation.TransGen.head'_iff.1 hu
    exact contains_of_parent? hp
  · obtain ⟨last, -, hp⟩ := Relation.TransGen.tail'_iff.1 hu
    exact (h.listed hp).1

/-- On the way up to a node its own parent does not matter. -/
theorem Below.congr (hp : ∀ id, id ≠ child → dom'.parent? id = dom.parent? id)
    (hb : dom.Below id child) : dom'.Below id child := by
  induction hb using Relation.ReflTransGen.head_induction_on with
  | refl => exact .refl
  | @head a next hnext _ ih =>
    by_cases ha : a = child
    · rw [ha]
      exact .refl
    · exact .head ((hp a ha).trans hnext) ih

/-- A way up that has a new link goes up to it and from it, or else it does not use it. -/
theorem Under.of_link {other : NodeId}
    (hp : ∀ id, dom'.parent? id = if id = child then some parent else dom.parent? id)
    (hu : dom'.Under id other) :
    dom.Under id other ∨ dom'.Below id child ∧ dom'.Below parent other := by
  have hlink : dom'.parent? child = some parent := by rw [hp, if_pos rfl]
  induction hu with
  | @single a ha =>
    by_cases hid : id = child
    · subst hid
      obtain rfl := Option.some.inj (hlink.symm.trans ha)
      exact .inr ⟨.refl, .refl⟩
    · rw [hp, if_neg hid] at ha
      exact .inl (.single ha)
  | @tail a b hab hb ih =>
    by_cases ha : a = child
    · subst ha
      obtain rfl := Option.some.inj (hlink.symm.trans hb)
      exact .inr ⟨hab.to_reflTransGen, .refl⟩
    · rcases ih with hu | ⟨hid, hparent⟩
      · rw [hp, if_neg ha] at hb
        exact .inl (hu.tail hb)
      · exact .inr ⟨hid, hparent.tail hb⟩

/-- A node that gets a parent is put below itself if that one is below it, and only then. -/
theorem Acyclic.link_iff (h : dom.Acyclic)
    (hp : ∀ id, dom'.parent? id = if id = child then some parent else dom.parent? id) :
    dom'.Acyclic ↔ ¬ dom.Below parent child := by
  have hoff (id : NodeId) (hid : id ≠ child) : dom'.parent? id = dom.parent? id := by
    rw [hp, if_neg hid]
  constructor
  · intro h' hb
    exact h' child (Relation.TransGen.head' (by rw [hp, if_pos rfl]) (hb.congr hoff))
  · intro hb id hid
    rcases Under.of_link hp hid with hu | ⟨hid, hparent⟩
    · exact h id hu
    · have hup : dom'.Below parent child := Relation.ReflTransGen.trans hparent hid
      exact hb (hup.congr fun id hid => (hoff id hid).symm)

theorem below_iff_under (hne : parent ≠ child) :
    dom.Below parent child ↔ dom.Under parent child := by
  rw [Below, Relation.reflTransGen_iff_eq_or_transGen, or_iff_right (Ne.symm hne)]
  rfl

/-! ## Appending -/

theorem Linked.acyclic_append_iff (h : dom.Linked) (ha : dom.Acyclic) (parent child : NodeId) :
    (dom.append parent child).Acyclic ↔ ¬ dom.Under parent child := by
  by_cases hlive : parent ≠ child ∧ dom.contains parent = true ∧ dom.contains child = true
  · rw [ha.link_iff (parent?_append hlive.1 hlive.2.1 hlive.2.2), below_iff_under hlive.1]
  · rw [append_eq_self_of_not hlive]
    refine iff_of_true ha fun hu => hlive ⟨?_, h.contains_of_under hu⟩
    rintro rfl
    exact ha parent hu

/-! ## Replacing -/

theorem get?_freeAll (dom : Dom) (pending : List NodeId) (id : NodeId) :
    (dom.freeAll pending).get? id = none ∨ (dom.freeAll pending).get? id = dom.get? id := by
  refine freeAll_induction
    (motive := fun dom _ after => after.get? id = none ∨ after.get? id = dom.get? id)
    (fun _ => .inr rfl) (fun _ _ _ _ ih => ih) (fun dom freed _ _ _ ih => ?_) dom pending
  rw [get?_clear] at ih
  split at ih
  · exact .inl (or_self_iff.1 ih)
  · exact ih

theorem parent?_of_parent?_freeAll (h : (dom.freeAll pending).parent? id = some parent) :
    dom.parent? id = some parent := by
  rw [parent?] at h ⊢
  rcases get?_freeAll dom pending id with hn | hn
  · rw [hn] at h
    cases h
  · rwa [hn] at h

theorem parent?_of_parent?_detach (h : (dom.detach child).parent? id = some parent) :
    dom.parent? id = some parent := by
  rw [parent?_detach] at h
  split at h
  · cases h
  · exact h

/-- The second node is the first one, or a child of it, or a child of that one, and so on. -/
def Reaches (dom : Dom) : NodeId → NodeId → Prop :=
  Relation.ReflTransGen fun id child => child ∈ dom.children id

theorem Reaches.of_clear {freed other : NodeId} (h : (dom.clear freed).Reaches id other) :
    dom.Reaches id other := by
  refine Relation.ReflTransGen.mono (fun a child hm => ?_) _ _ h
  rw [children_clear] at hm
  split at hm
  · cases hm
  · exact hm

/-- What freeing does not reach stays. -/
theorem get?_freeAll_of_not_reaches (h : ∀ freed ∈ pending, ¬ dom.Reaches freed id) :
    (dom.freeAll pending).get? id = dom.get? id := by
  refine freeAll_induction (motive := fun dom pending after =>
      (∀ freed ∈ pending, ¬ dom.Reaches freed id) → after.get? id = dom.get? id)
    (fun _ _ => rfl) (fun dom freed rest _ ih h => ih (List.forall_mem_cons.1 h).2)
    (fun dom freed rest node hn ih h => ?_) dom pending h
  obtain ⟨hfreed, hrest⟩ := List.forall_mem_cons.1 h
  have hne : id ≠ freed := by
    rintro rfl
    exact hfreed .refl
  rw [ih, get?_clear, if_neg hne]
  refine List.forall_mem_append.2 ⟨fun c hc hr => ?_, fun c hc hr => hrest c hc hr.of_clear⟩
  rw [List.mem_reverse, ← children_eq hn] at hc
  exact hfreed (.head hc hr.of_clear)

/-- What is reached from a node whose place was taken was below it already. -/
theorem Linked.below_of_reaches (h : dom.Linked) (ha : dom.Acyclic)
    (hold : dom.parent? old = some parent) (hne : old ≠ new)
    (hr : ((dom.detach new).linkOver old new).Reaches old id) : dom.Below id old := by
  have hold' : (dom.detach new).parent? old = some parent :=
    (parent?_detach_of_ne hne).trans hold
  have hparent : (dom.detach new).contains parent = true := by
    rw [contains_detach]
    exact (h.listed hold).1
  induction hr with
  | refl => exact .refl
  | @tail a b _ hb ih =>
    rw [children_linkOver hold' hparent] at hb
    split at hb
    · next he => exact absurd (he ▸ ih) (ha.not_below_parent? hold)
    · rw [h.children_detach] at hb
      exact .head (h.named (List.mem_of_mem_filter hb)).2 ih

/-- A node that takes the place of one below it comes to be below itself, and stays so when that one
is freed. -/
theorem Linked.under_replace (h : dom.Linked) (ha : dom.Acyclic) (hc : dom.contains new = true)
    (hold : dom.parent? old = some parent) (hne : old ≠ new) (hb : dom.Below parent new) :
    (dom.replace old new).Under new new := by
  have hold' : (dom.detach new).parent? old = some parent :=
    (parent?_detach_of_ne hne).trans hold
  -- No node from the parent up to the new one is below the old one, so none of them is freed.
  have hkept (id : NodeId) (hid : dom.Below parent id) : (dom.replace old new).parent? id =
      if id = new then some parent else dom.parent? id := by
    have hget : (dom.replace old new).get? id = ((dom.detach new).linkOver old new).get? id := by
      rw [replace_eq_freeTree hne hc]
      refine get?_freeAll_of_not_reaches fun freed hm hr => ?_
      rw [List.mem_singleton.1 hm] at hr
      exact ha.not_below_parent? hold
        (Relation.ReflTransGen.trans hid (h.below_of_reaches ha hold hne hr))
    rw [parent?, hget, ← parent?, parent?_linkOver hold' (by rw [contains_detach, hc]),
      parent?_detach]
    split <;> rfl
  have hup (id : NodeId) (hid : dom.Below id new) :
      dom.Below parent id → (dom.replace old new).Below id new := by
    induction hid using Relation.ReflTransGen.head_induction_on with
    | refl => exact fun _ => .refl
    | @head a next hnext _ ih =>
      intro hpa
      by_cases hn : a = new
      · rw [hn]
        exact .refl
      · refine .head ?_ (ih (hpa.tail hnext))
        rw [hkept a hpa, if_neg hn, hnext]
  refine Relation.TransGen.head' (b := parent) ?_ (hup parent hb .refl)
  rw [hkept new hb, if_pos rfl]

theorem Acyclic.replace_of_root (ha : dom.Acyclic) (hold : dom.parent? old = none) (new : NodeId) :
    (dom.replace old new).Acyclic := by
  by_cases hlive : old ≠ new ∧ dom.contains new = true
  · refine ha.of_parent? fun {id above} hp => ?_
    have hroot : (dom.detach new).parent? old = none :=
      (parent?_detach_of_ne hlive.1).trans hold
    rw [replace_eq_freeTree hlive.1 hlive.2, linkOver_of_parent?_eq_none hroot] at hp
    exact parent?_of_parent?_detach (parent?_of_parent?_freeAll hp)
  · rw [replace_eq_self_of_not hlive]
    exact ha

theorem under_iff_of_parent? (hold : dom.parent? old = some parent) :
    dom.Under old id ↔ dom.Below parent id := by
  refine ⟨fun hu => ?_, Relation.TransGen.head' hold⟩
  obtain ⟨next, hp, hb⟩ := Relation.TransGen.head'_iff.1 hu
  obtain rfl := Option.some.inj (hold.symm.trans hp)
  exact hb

theorem not_under_of_parent?_eq_none (hold : dom.parent? old = none) : ¬ dom.Under old id := by
  intro hu
  obtain ⟨next, hp, -⟩ := Relation.TransGen.head'_iff.1 hu
  rw [hold] at hp
  cases hp

theorem Linked.acyclic_replace_iff (h : dom.Linked) (ha : dom.Acyclic) (old new : NodeId) :
    (dom.replace old new).Acyclic ↔ ¬ dom.Under old new := by
  by_cases hlive : old ≠ new ∧ dom.contains new = true
  swap
  · rw [replace_eq_self_of_not hlive]
    refine iff_of_true ha fun hu => hlive ⟨?_, (h.contains_of_under hu).2⟩
    rintro rfl
    exact ha old hu
  obtain ⟨hne, hc⟩ := hlive
  cases hold : dom.parent? old with
  | none => exact iff_of_true (ha.replace_of_root hold new) (not_under_of_parent?_eq_none hold)
  | some parent =>
    have hold' : (dom.detach new).parent? old = some parent :=
      (parent?_detach_of_ne hne).trans hold
    rw [under_iff_of_parent? hold]
    refine ⟨fun h' hb => h' new (h.under_replace ha hc hold hne hb), fun hb => ?_⟩
    have hlinked : ((dom.detach new).linkOver old new).Acyclic := by
      refine (ha.link_iff fun id => ?_).2 hb
      rw [parent?_linkOver hold' (by rw [contains_detach, hc]), parent?_detach]
      split <;> rfl
    rw [replace_eq_freeTree hne hc]
    exact hlinked.of_parent? parent?_of_parent?_freeAll

/-! ## New trees -/

/-- What is below a root is not below itself. -/
theorem not_under_of_root {root : NodeId} (hroot : dom.parent? root = none)
    (hb : dom.Below id root) : ¬ dom.Under id id := by
  induction hb using Relation.ReflTransGen.head_induction_on with
  | refl => exact not_under_of_parent?_eq_none hroot
  | @head a next hnext _ ih =>
    rw [under_iff_of_parent? hnext]
    exact fun hb => ih (Relation.TransGen.tail' hb hnext)

mutual

theorem Hosts.below_label : ∀ {parent? : Option NodeId} {t : Tree NodeId}, Hosts dom parent? t →
    id ∈ t.labels → dom.Below id t.label
  | _, .node a _ ts, h, hm => by
    rw [Tree.labels, List.mem_cons] at hm
    rcases hm with rfl | hm
    · exact .refl
    · obtain ⟨t, ht, hb⟩ := HostsAll.exists_below_label h.2 hm
      exact hb.tail (parent?_eq (hostsAll_iff.1 h.2 t ht).get?_label)

theorem HostsAll.exists_below_label : ∀ {parent? : Option NodeId} {ts : List (Tree NodeId)},
    HostsAll dom parent? ts → id ∈ Tree.labelsOfAll ts → ∃ t ∈ ts, dom.Below id t.label
  | _, [], _, hm => by cases hm
  | _, t :: rest, h, hm => by
    rw [Tree.labelsOfAll, List.mem_append] at hm
    rcases hm with hm | hm
    · exact ⟨t, List.mem_cons_self, Hosts.below_label h.1 hm⟩
    · obtain ⟨u, hu, hb⟩ := HostsAll.exists_below_label h.2 hm
      exact ⟨u, List.mem_cons_of_mem _ hu, hb⟩

end

theorem Grafts.plants {t : Tree NodeId} (h : Grafts dom dom' t) : Plants dom dom' [t] := by
  refine ⟨⟨h.hosts, trivial⟩, ?_, ?_, ?_, ?_, h.sound⟩ <;> rw [Tree.labelsOfAll_singleton]
  · exact h.nodup
  · exact h.made
  · exact h.get?
  · exact h.size

theorem Plants.acyclic {ts : List (Tree NodeId)} (h : Plants dom dom' ts) (hl : dom.Linked)
    (ha : dom.Acyclic) : dom'.Acyclic := by
  have hkept (id : NodeId) (hid : dom.contains id = true) : dom'.parent? id = dom.parent? id := by
    rw [parent?, parent?, h.get? id fun hm => ?_]
    rw [contains, h.made id hm] at hid
    cases hid
  intro id hu
  by_cases hm : id ∈ Tree.labelsOfAll ts
  · obtain ⟨t, ht, hb⟩ := h.hosts.exists_below_label hm
    exact not_under_of_root (parent?_eq (hostsAll_iff.1 h.hosts t ht).get?_label) hb hu
  · have hlive : dom.contains id = true := by
      obtain ⟨next, hp, -⟩ := Relation.TransGen.head'_iff.1 hu
      have := contains_of_parent? hp
      rwa [contains, h.get? id hm] at this
    -- From a node that was there the way up leads through nodes that were there.
    refine ha id ?_
    suffices key : ∀ above, dom'.Under id above → dom.Under id above from key id hu
    intro above hu
    induction hu with
    | single hp =>
      rw [hkept id hlive] at hp
      exact .single hp
    | tail _ hp ih =>
      rw [hkept _ (hl.contains_of_under ih).2] at hp
      exact ih.tail hp

/-! ## Changes -/

/-- The change puts a node below itself: it appends a node to one below it, or puts a node in the
place of one below it. -/
def Change.Loops (dom : Dom) : Change → Prop
  | .append parent child => dom.Under parent child
  | .replace old new => dom.Under old new
  | _ => False

theorem acyclic_remove (ha : dom.Acyclic) (id : NodeId) : (dom.remove id).Acyclic :=
  ha.of_parent? fun hp => parent?_of_parent?_detach (parent?_of_parent?_freeAll hp)

theorem Linked.acyclic_copyTree (h : dom.Linked) (ha : dom.Acyclic) (id : NodeId) :
    (dom.copyTree id).1.Acyclic := by
  rw [Dom.copyTree]
  split
  · next t _ =>
    obtain ⟨new, -, -, hgraft⟩ := grafts_graft t h.sound
    exact hgraft.plants.acyclic h ha
  · exact ha

theorem Linked.acyclic_parseFragment [Html.Tokenizer] (h : dom.Linked) (ha : dom.Acyclic)
    (markup : List Char) : (dom.parseFragment markup).1.Acyclic := by
  obtain ⟨new, -, -, hplants⟩ := plants_parseFragment h.sound markup
  exact hplants.acyclic h ha

theorem Acyclic.modify (ha : dom.Acyclic) (id : NodeId) {f : Node → Node}
    (hf : ∀ node, (f node).parent = node.parent) : (dom.modify id f).Acyclic :=
  ha.of_parent? fun hp => by rwa [parent?_modify dom id _ hf] at hp

/-- A change puts a node below itself if it loops, and only then. -/
theorem Linked.acyclic_apply_iff [Html.Tokenizer] (h : dom.Linked) (ha : dom.Acyclic)
    (change : Change) : (change.apply dom).Acyclic ↔ ¬ change.Loops dom := by
  cases change with
  | append parent child => exact h.acyclic_append_iff ha parent child
  | replace old new => exact h.acyclic_replace_iff ha old new
  | createElement tag =>
    exact iff_of_true (ha.of_parent? fun hp => by rwa [← h.sound.parent?_allocate]) not_false
  | createText s =>
    exact iff_of_true (ha.of_parent? fun hp => by rwa [← h.sound.parent?_allocate]) not_false
  | parse markup => exact iff_of_true (h.acyclic_parseFragment ha markup) not_false
  | copyTree node => exact iff_of_true (h.acyclic_copyTree ha node) not_false
  | remove node => exact iff_of_true (acyclic_remove ha node) not_false
  | release node => exact iff_of_true (acyclic_remove ha node) not_false
  | setText node s =>
    exact iff_of_true (ha.modify node fun node => by split <;> rfl) not_false
  | setAttribute node name value =>
    exact iff_of_true (ha.modify node fun node => by split <;> rfl) not_false
  | removeAttribute node name =>
    exact iff_of_true (ha.modify node fun node => by split <;> rfl) not_false

/-! ## Runs -/

theorem acyclic_empty : Dom.empty.Acyclic := fun id hu => by
  have := (linked_empty.contains_of_under hu).1
  rw [contains, get?_empty] at this
  cases this

theorem Linked.acyclic_run [Html.Tokenizer] (h : dom.Linked) (ha : dom.Acyclic)
    {changes : List Change}
    (hloop : ∀ done change, done ++ [change] <+: changes → ¬ change.Loops (dom.run done)) :
    (dom.run changes).Acyclic := by
  induction changes using List.reverseRecOn with
  | nil => exact ha
  | append_singleton done change ih =>
    have hdone := ih fun earlier next hp => hloop earlier next (hp.trans (List.prefix_append _ _))
    rw [run_append]
    exact ((h.run done).acyclic_apply_iff hdone change).2 (hloop done change List.prefix_rfl)

/-- The arena is made up of trees: no node is below itself, following parents ends at a root, and
every traversal ends. -/
structure IsTreelike (dom : Dom) : Prop where
  acyclic : dom.Acyclic
  rooted : ∀ id, dom.contains id = true →
    ∃ root, dom.Below id root ∧ dom.contains root = true ∧ dom.parent? root = none
  traversals : dom.TraversalsEnd

theorem Linked.isTreelike (h : dom.Linked) (ha : dom.Acyclic) : dom.IsTreelike :=
  ⟨ha, fun _ => h.exists_root ha, h.traversalsEnd ha⟩

/-- All along a run the arena is made up of trees if no change of the run puts a node below itself,
and only then. -/
theorem treelike_along_run_iff [Html.Tokenizer] (changes : List Change) :
    (∀ done, done <+: changes → (Dom.empty.run done).IsTreelike) ↔
      ∀ done change, done ++ [change] <+: changes → ¬ change.Loops (Dom.empty.run done) := by
  constructor
  · intro h done change hp
    have hafter := (h _ hp).acyclic
    rw [run_append] at hafter
    have hbefore := (h done ((List.prefix_append done [change]).trans hp)).acyclic
    exact ((linked_empty.run done).acyclic_apply_iff hbefore change).1 hafter
  · intro h done hp
    refine (linked_empty.run done).isTreelike (linked_empty.acyclic_run acyclic_empty ?_)
    exact fun earlier change he => h earlier change (he.trans hp)

/-- An element is appended to its own child: it is below itself then, and writing its markup does
not end. -/
theorem element_below_itself :
    let dom := Dom.empty.run [.createElement "ul", .createElement "li", .append ⟨0, 0⟩ ⟨1, 0⟩]
    dom.contains ⟨0, 0⟩ = true ∧ dom.contains ⟨1, 0⟩ = true ∧
      (dom.append ⟨1, 0⟩ ⟨0, 0⟩).Under ⟨0, 0⟩ ⟨0, 0⟩ ∧
      ∀ calls, (dom.append ⟨1, 0⟩ ⟨0, 0⟩).writeWithin calls false ⟨0, 0⟩ = none := by
  intro dom
  have hlist : (dom.append ⟨1, 0⟩ ⟨0, 0⟩).get? ⟨0, 0⟩ =
      some ⟨.element "ul" [], some ⟨1, 0⟩, [⟨1, 0⟩]⟩ := by
    simp only [dom]
    decide +kernel
  have hitem : (dom.append ⟨1, 0⟩ ⟨0, 0⟩).get? ⟨1, 0⟩ =
      some ⟨.element "li" [], some ⟨0, 0⟩, [⟨0, 0⟩]⟩ := by
    simp only [dom]
    decide +kernel
  refine ⟨by simp only [dom]; decide +kernel, by simp only [dom]; decide +kernel,
    .tail (.single (parent?_eq hlist)) (parent?_eq hitem), fun calls => ?_⟩
  suffices key : ∀ calls raw, (dom.append ⟨1, 0⟩ ⟨0, 0⟩).writeWithin calls raw ⟨0, 0⟩ = none ∧
      (dom.append ⟨1, 0⟩ ⟨0, 0⟩).writeWithin calls raw ⟨1, 0⟩ = none from (key calls false).1
  intro calls
  induction calls with
  | zero => exact fun raw => ⟨rfl, rfl⟩
  | succ calls ih =>
    intro raw
    constructor
    · rw [writeWithin, hlist]
      simp only
      rw [if_neg (by decide), List.mapM_cons, (ih _).2]
      rfl
    · rw [writeWithin, hitem]
      simp only
      rw [if_neg (by decide), List.mapM_cons, (ih _).1]
      rfl

end Dom

end LiveMarkup
