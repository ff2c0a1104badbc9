import LiveMarkup.Html.Tokenizer
import LiveMarkup.Proofs.Dom.Editing
import LiveMarkup.Proofs.Dom.InPlace
import LiveMarkup.Proofs.Dom.Paths

/-!
# Reconciling without needless changes

Two trees are reconciled without a change if and only if they are alike
(`Aligned.edits_eq_nil_iff`). Where they match, an attribute is changed once if it differs, and else
not at all (`Aligned.editsOfAttribute_eq`).

In a forest this is so for any two nodes that are not below one another, and reconciling the result
once more changes nothing (`IsForest.reconcile_edits`).
-/

namespace LiveMarkup

/-- The attributes of an element. A text has none. -/
def Content.attributes : Content → OrderedMap String String
  | .element _ attributes => attributes
  | .text _ => []

theorem Tree.Alike.content {α β : Type} {t : Tree α} {u : Tree β} (h : t.Alike u) :
    t.content.Alike u.content := by
  cases t
  cases u
  exact h.1

namespace Dom

/-- The attribute that is set or removed: the node and the name. -/
def Edit.attribute? : Edit → Option (NodeId × String)
  | .setAttribute node name _ => some (node, name)
  | .removeAttribute node name => some (node, name)
  | _ => none

/-- The changes to one attribute of a node. -/
def editsOfAttribute (id : NodeId) (name : String) (edits : List Edit) : List Edit :=
  edits.filter fun edit => edit.attribute? = some (id, name)

/-- The one change that brings an attribute to a new value, if it has another one. -/
def attributeUpdate (id : NodeId) (name : String) (old new : Option String) : List Edit :=
  if old = new then []
  else
    match new with
    | some value => [.setAttribute id name value]
    | none => [.removeAttribute id name]

variable {dom : Dom} {id live fresh parent : NodeId} {name : String} {t u v t' u' : Tree NodeId}
  {ts us vs : List (Tree NodeId)} {edits : List Edit} {edit : Edit} {path : List Nat}
  {attributes wanted : OrderedMap String String}

theorem editsOfAttribute_append (id : NodeId) (name : String) (edits later : List Edit) :
    editsOfAttribute id name (edits ++ later) =
      editsOfAttribute id name edits ++ editsOfAttribute id name later := List.filter_append ..

theorem attributeUpdate_eq_nil_iff {old new : Option String} :
    attributeUpdate id name old new = [] ↔ old = new := by
  unfold attributeUpdate
  split
  · next h => exact iff_of_true rfl h
  · next h => cases new <;> exact iff_of_false (List.cons_ne_nil _ _) h

/-! ## Attributes -/

theorem exists_attribute?_of_mem_attributeEdits (h : edit ∈ attributeEdits id attributes wanted) :
    ∃ name, edit.attribute? = some (id, name) := by
  rw [attributeEdits, List.mem_append, List.mem_map, List.mem_map] at h
  rcases h with ⟨e, -, rfl⟩ | ⟨e, -, rfl⟩
  · exact ⟨e.1, rfl⟩
  · exact ⟨e.1, rfl⟩

theorem editsOfAttribute_attributeEdits (ha : attributes.Distinct) (hw : wanted.Distinct)
    (id : NodeId) (name : String) :
    editsOfAttribute id name (attributeEdits id attributes wanted) =
      attributeUpdate id name (attributes.find? name) (wanted.find? name) := by
  have hkey (key : String) : (some (id, key) = some (id, name)) ↔ key = name := by simp
  rw [attributeEdits, editsOfAttribute_append, editsOfAttribute, editsOfAttribute, List.filter_map,
    List.filter_map]
  simp only [Function.comp_def, Edit.attribute?, hkey]
  rw [List.filter_comm, ha.filter_fst_eq, List.filter_comm, hw.filter_fst_eq]
  unfold attributeUpdate
  cases ha' : attributes.find? name <;> cases hw' : wanted.find? name
  case some.some old new => by_cases he : old = new <;> simp [OrderedMap.contains, ha', hw', he]
  all_goals simp [OrderedMap.contains, ha', hw']

theorem editsOfAttribute_attributeEdits_of_ne {other : NodeId} (h : other ≠ id) :
    editsOfAttribute other name (attributeEdits id attributes wanted) = [] :=
  List.filter_eq_nil_iff.2 fun edit hm ha => by
    obtain ⟨name', hname⟩ := exists_attribute?_of_mem_attributeEdits hm
    have hother := of_decide_eq_true ha
    rw [hname, Option.some_inj, Prod.mk.injEq] at hother
    exact h hother.1.symm

theorem attributeEdits_eq_nil_iff (ha : attributes.Distinct) (hw : wanted.Distinct) (id : NodeId) :
    attributeEdits id attributes wanted = [] ↔
      ∀ name, attributes.find? name = wanted.find? name := by
  constructor
  · intro h name
    have hupdate := editsOfAttribute_attributeEdits ha hw id name
    rw [h] at hupdate
    exact attributeUpdate_eq_nil_iff.1 hupdate.symm
  · intro h
    -- Each change is to some attribute, and there is none to any attribute.
    refine List.eq_nil_iff_forall_not_mem.2 fun edit hm => ?_
    obtain ⟨name, hname⟩ := exists_attribute?_of_mem_attributeEdits hm
    have hupdate := editsOfAttribute_attributeEdits ha hw id name
    rw [attributeUpdate_eq_nil_iff.2 (h name)] at hupdate
    exact List.eq_nil_iff_forall_not_mem.1 hupdate edit
      (List.mem_filter.2 ⟨hm, decide_eq_true hname⟩)

/-! ## Aligned trees -/

mutual

/-- Trees are reconciled without a change if and only if they are alike. -/
theorem Aligned.edits_eq_nil_iff : ∀ {t u v : Tree NodeId} {edits : List Edit},
    Aligned t u v edits → t.WellFormed → u.WellFormed → (edits = [] ↔ t.Alike u)
  | _, _, _, _, .text a b s s', _, _ => by
    simp [Tree.Alike, Tree.AlikeAll, Content.Alike]
  | _, _, _, _, .element h, hl, hf => by
    rw [List.append_eq_nil_iff, attributeEdits_eq_nil_iff hl.1 hf.1,
      h.edits_eq_nil_iff hl.2.2 hf.2.2, Tree.Alike]
    exact and_congr_left fun _ => (and_iff_right rfl).symm
  | _, _, _, _, .replaced h _, _, _ =>
    iff_of_false (List.cons_ne_nil _ _) fun ha => not_matches_of_replace h ha.content.matches

theorem AlignedAll.edits_eq_nil_iff : ∀ {parent : NodeId} {ts us vs : List (Tree NodeId)}
    {edits : List Edit}, AlignedAll parent ts us vs edits → Tree.WellFormedAll ts →
    Tree.WellFormedAll us → (edits = [] ↔ Tree.AlikeAll ts us)
  | _, _, _, _, _, .done _, _, _ => iff_of_true rfl trivial
  | _, _, _, _, _, .matched h hrest, hl, hf => by
    rw [List.append_eq_nil_iff, h.edits_eq_nil_iff hl.1 hf.1, hrest.edits_eq_nil_iff hl.2 hf.2,
      Tree.AlikeAll]
  | _, _, _, _, _, .surplus _, _, _ => iff_of_false (List.cons_ne_nil _ _) id
  | _, _, _, _, _, .missing _ _, _, _ => iff_of_false (List.cons_ne_nil _ _) id

end

mutual

/-- Attributes are changed at live nodes only. -/
theorem Aligned.mem_labels_of_attribute? : ∀ {t u v : Tree NodeId} {edits : List Edit},
    Aligned t u v edits → edit ∈ edits → edit.attribute? = some (id, name) → id ∈ t.labels
  | _, _, _, _, .text a b s s', hm, ha => by
    split at hm
    · cases hm
    · obtain rfl := List.mem_singleton.1 hm
      cases ha
  | _, _, _, _, .element h, hm, ha => by
    rcases List.mem_append.1 hm with hm | hm
    · obtain ⟨name', hname⟩ := exists_attribute?_of_mem_attributeEdits hm
      cases ha.symm.trans hname
      exact List.mem_cons_self
    · exact List.mem_cons_of_mem _ (h.mem_labelsOfAll_of_attribute? hm ha)
  | _, _, _, _, .replaced _ _, hm, ha => by
    rcases List.mem_pair.1 hm with rfl | rfl <;> cases ha

theorem AlignedAll.mem_labelsOfAll_of_attribute? : ∀ {parent : NodeId}
    {ts us vs : List (Tree NodeId)} {edits : List Edit}, AlignedAll parent ts us vs edits →
    edit ∈ edits → edit.attribute? = some (id, name) → id ∈ Tree.labelsOfAll ts
  | _, _, _, _, _, .done _, hm, _ => by cases hm
  | _, _, _, _, _, .matched h hrest, hm, ha => by
    rcases List.mem_append.1 hm with hm | hm
    · exact List.mem_append_left _ (h.mem_labels_of_attribute? hm ha)
    · exact List.mem_append_right _ (hrest.mem_labelsOfAll_of_attribute? hm ha)
  | _, _, _, _, _, .surplus hrest, hm, ha => by
    rcases List.mem_cons.1 hm with rfl | hm
    · cases ha
    · exact List.mem_append_right _ (hrest.mem_labelsOfAll_of_attribute? hm ha)
  | _, _, _, _, _, .missing _ hrest, hm, ha => by
    rcases List.mem_cons.1 hm with rfl | hm
    · cases ha
    · rcases List.mem_cons.1 hm with rfl | hm
      · cases ha
      · exact hrest.mem_labelsOfAll_of_attribute? hm ha

end

theorem AlignedAll.editsOfAttribute_eq_nil (h : AlignedAll parent ts us vs edits)
    (hid : id ∉ Tree.labelsOfAll ts) (name : String) : editsOfAttribute id name edits = [] :=
  List.filter_eq_nil_iff.2 fun _ hm ha =>
    hid (h.mem_labelsOfAll_of_attribute? hm (of_decide_eq_true ha))

/-- The attributes below one of the children are changed when that child is reconciled. -/
theorem AlignedAll.exists_editsOfAttribute_eq {i : Nat} (h : AlignedAll parent ts us vs edits)
    (hn : (Tree.labelsOfAll ts).Nodup) (ht : ts[i]? = some t) (hu : us[i]? = some u) :
    ∃ v own, Aligned t u v own ∧ ∀ id ∈ t.labels, ∀ name,
      editsOfAttribute id name edits = editsOfAttribute id name own := by
  obtain ⟨v, before, own, after, -, hown, rfl, hbefore, hafter⟩ := h.exists_aligned ht hu
  rw [Tree.labelsOfAll_eq_of_getElem? ht] at hn
  refine ⟨v, own, hown, fun id hid name => ?_⟩
  have hout : id ∉ Tree.labelsOfAll (ts.take i) := fun hm =>
    List.disjoint_of_nodup_append hn hm (List.mem_append_left _ hid)
  have hout' : id ∉ Tree.labelsOfAll (ts.drop (i + 1)) :=
    List.disjoint_of_nodup_append hn.of_append_right hid
  rw [editsOfAttribute_append, editsOfAttribute_append, hbefore.editsOfAttribute_eq_nil hout,
    hafter.editsOfAttribute_eq_nil hout', List.nil_append, List.append_nil]

/-- At two nodes that match, an attribute is changed once if it differs, and else not at all. -/
theorem Aligned.editsOfAttribute_eq (h : Aligned t u v edits) (hn : t.labels.Nodup)
    (ht : t.WellFormed) (hu : u.WellFormed) (hm : t.MatchedAlong u path)
    (ht' : t.at? path = some t') (hu' : u.at? path = some u') (name : String) :
    editsOfAttribute t'.label name edits =
      attributeUpdate t'.label name (t'.content.attributes.find? name)
        (u'.content.attributes.find? name) := by
  induction path generalizing t u v edits with
  | nil =>
    rw [Tree.at?_nil, Option.some_inj] at ht' hu'
    subst ht' hu'
    rw [Tree.matchedAlong_nil] at hm
    cases h with
    | replaced hr => exact absurd hm (not_matches_of_replace hr)
    | text a b s s' =>
      have hnone : attributeUpdate a name none none = [] := attributeUpdate_eq_nil_iff.2 rfl
      refine Eq.trans ?_ hnone.symm
      split
      · rfl
      · rfl
    | element hall =>
      rw [Tree.labels, List.nodup_cons] at hn
      rw [editsOfAttribute_append, Tree.label, editsOfAttribute_attributeEdits ht.1 hu.1,
        hall.editsOfAttribute_eq_nil hn.1, List.append_nil]
      rfl
  | cons i path ih =>
    obtain ⟨hroot, t₁, u₁, ht₁, hu₁, hm'⟩ := Tree.matchedAlong_cons.1 hm
    rw [Tree.at?_cons, ht₁, Option.bind_some] at ht'
    rw [Tree.at?_cons, hu₁, Option.bind_some] at hu'
    cases h with
    | text => cases ht₁
    | replaced hr => exact absurd hroot (not_matches_of_replace hr)
    | @element a b tag attributes wanted ts us vs edits hall =>
      rw [Tree.labels, List.nodup_cons] at hn
      have hx : t'.label ∈ t₁.labels :=
        Tree.mem_labels_of_labelAt? (by rw [Tree.labelAt?, ht', Option.map_some])
      have hts : t'.label ∈ Tree.labelsOfAll ts := Tree.mem_labelsOfAll_of_getElem? ht₁ hx
      obtain ⟨_, own, hown, hsame⟩ := hall.exists_editsOfAttribute_eq hn.2 ht₁ hu₁
      rw [editsOfAttribute_append,
        editsOfAttribute_attributeEdits_of_ne fun e : t'.label = a => hn.1 (e ▸ hts),
        List.nil_append, hsame _ hx]
      exact ih hown (hn.2.sublist (Tree.labels_sublist_of_mem (List.mem_of_getElem? ht₁)))
        (Tree.wellFormedAll_iff.1 ht.2.2 t₁ (List.mem_of_getElem? ht₁))
        (Tree.wellFormedAll_iff.1 hu.2.2 u₁ (List.mem_of_getElem? hu₁)) hm' ht' hu'

/-! ## In the arena -/

theorem attribute?_eq {parent? : Option NodeId} (h : Hosts dom parent? t) (name : String) :
    dom.attribute? t.label name = t.content.attributes.find? name := by
  rw [attribute?, Dom.attributes, content?_eq h]
  cases t.content <;> rfl

theorem Hosts.at? {parent? : Option NodeId} (h : Hosts dom parent? t)
    (ht' : t.at? path = some t') : ∃ parent?, Hosts dom parent? t' := by
  induction path generalizing t parent? with
  | nil =>
    rw [Tree.at?_nil, Option.some_inj] at ht'
    exact ⟨parent?, ht' ▸ h⟩
  | cons i path ih =>
    rw [Tree.at?_cons, Option.bind_eq_some_iff] at ht'
    obtain ⟨u, hu, ht'⟩ := ht'
    exact ih (hostsAll_iff.1 h.children u (List.mem_of_getElem? hu)) ht'

/-- The tree that takes the place of the live one is apart from the fresh one. -/
theorem Apart.of_swaps {dom' : Dom} {parent? freshParent? : Option NodeId}
    {live fresh made : Tree NodeId} (h : Apart dom parent? live freshParent? fresh)
    (hs : Swaps dom dom' parent? live made) (hw : made.WellFormed)
    (hout : ∀ p, parent? = some p → p ∉ fresh.labels) :
    Apart dom' parent? made freshParent? fresh := by
  have hnew : ∀ {id}, (dom.get? id).isSome → id ∉ live.labels → id ∉ made.labels :=
    fun {id} hid hl hm => by
      rcases hs.made id hm with ho | hnone
      · exact hl ho
      · rw [hnone] at hid
        cases hid
  have hfresh : ∀ id ∈ fresh.labels, id ∉ live.labels := fun id hm hl => h.disjoint id hl hm
  refine ⟨hs.sound, hs.hosts, h.hostsFresh.congr fun id hm => ?_, hs.nodup, h.nodupFresh,
    fun id hm hf => hnew (h.hostsFresh.isSome_of_mem hf) (hfresh id hf) hm, hw, h.wellFormedFresh,
    fun p hp => ?_⟩
  · rw [hs.get? id (hnew (h.hostsFresh.isSome_of_mem hm) (hfresh id hm)), if_neg (hfresh id hm),
      map_editChildren_of_ne fun hp => hout id hp hm]
  · obtain ⟨hlive, hl⟩ := h.hasParent p hp
    have hm := hnew hlive hl
    exact ⟨by rw [hs.get? p hm, if_neg hl, Option.isSome_map, hlive], hm⟩

/-- Reconciling two trees of a forest makes no change if and only if they are alike. At two nodes
that match, an attribute is set or removed once if it differs, and else not at all. Reconciling the
result with the fresh tree once more makes no change. -/
theorem IsForest.reconcile_edits [Html.Tokenizer] (h : dom.IsForest) (hl : dom.contains live = true)
    (hf : dom.contains fresh = true) (hlf : ¬ dom.Below live fresh) (hfl : ¬ dom.Below fresh live) :
    let after := (dom.reconcile live fresh).1.dom
    let result := (dom.reconcile live fresh).2
    let edits := (dom.reconcile live fresh).1.edits
    ∃ old wanted : Tree NodeId, dom.tree? live = some old ∧ dom.tree? fresh = some wanted ∧
      after = dom.run (edits.map Edit.change) ∧
      (edits = [] ↔ old.Alike wanted) ∧
      (∀ path a b, old.labelAt? path = some a → wanted.labelAt? path = some b →
        old.MatchedAlong wanted path → ∀ name, editsOfAttribute a name edits =
          attributeUpdate a name (dom.attribute? a name) (dom.attribute? b name)) ∧
      (after.reconcile result fresh).1.edits = [] := by
  intro after result edits
  obtain ⟨old, wanted, made, hout⟩ := h.exists_outcome hl hf hlf hfl
  have hold := hout.liveTree.wellFormed
  have hwanted := hout.freshTree.wellFormed
  have hmade := hout.aligned.wellFormed hold hwanted
  refine ⟨old, wanted, hout.liveTree.tree?_eq, hout.freshTree.tree?_eq,
    (records_reconcile dom live fresh).dom_eq, hout.aligned.edits_eq_nil_iff hold hwanted, ?_, ?_⟩
  · intro path a b ha hb hm name
    obtain ⟨t, ht, rfl⟩ := Option.map_eq_some_iff.1 ha
    obtain ⟨u, hu, rfl⟩ := Option.map_eq_some_iff.1 hb
    obtain ⟨_, hhost⟩ := hout.liveTree.hosts.at? ht
    obtain ⟨_, hhost'⟩ := hout.freshTree.hosts.at? hu
    rw [attribute?_eq hhost, attribute?_eq hhost']
    exact hout.aligned.editsOfAttribute_eq hout.liveTree.nodup hold hwanted hm ht hu name
  · -- The result is alike to the fresh tree, which was not touched.
    have hagain := reconciled_reconcile (hout.apart.of_swaps hout.swaps hmade fun p hp hm =>
      hlf (((hout.freshTree.mem_iff p).1 hm).head hp))
    rw [← hout.result, hout.freshTree.label] at hagain
    obtain ⟨_, again, -, haligned, hedits, -⟩ := hagain
    rw [List.nil_append] at hedits
    exact hedits.trans ((haligned.edits_eq_nil_iff hmade hwanted).2
      (hout.aligned.alike hold hwanted))

/-- A list loses a title and its last item, and gets another class. Its identifier and its first
item are not touched, and after that there is nothing to do. -/
theorem IsForest.reconcile_edits_of_list :
    let list : Tree Unit := .node () (.element "ul" [("id", "a"), ("class", "b"), ("title", "c")])
      [.node () (.element "li" []) [.node () (.text "x") []], .node () (.element "li" []) []]
    let wanted : Tree Unit := .node () (.element "ul" [("class", "d"), ("id", "a")])
      [.node () (.element "li" []) [.node () (.text "x") []]]
    let live := (Dom.empty.graft list).2
    let dom := ((Dom.empty.graft list).1.graft wanted).1
    let fresh := ((Dom.empty.graft list).1.graft wanted).2
    dom.IsForest ∧ dom.contains live = true ∧ dom.contains fresh = true ∧
      ¬ dom.Below live fresh ∧ ¬ dom.Below fresh live ∧
      (dom.reconcile live fresh).1.edits =
        [.removeAttribute live "title", .setAttribute live "class" "d", .remove ⟨3, 0⟩] ∧
      ((dom.reconcile live fresh).1.dom.reconcile (dom.reconcile live fresh).2 fresh).1.edits =
        [] := by
  intro list wanted live dom fresh
  have hlist : list.WellFormed := by
    simp [list, Tree.WellFormed, Tree.WellFormedAll, Content.WellFormed, OrderedMap.Distinct]
  have hwanted : wanted.WellFormed := by
    simp [wanted, Tree.WellFormed, Tree.WellFormedAll, Content.WellFormed, OrderedMap.Distinct]
  obtain ⟨hforest, hl, hf, hlf, hfl⟩ : dom.IsForest ∧ dom.contains live = true ∧
      dom.contains fresh = true ∧ ¬ dom.Below live fresh ∧ ¬ dom.Below fresh live :=
    isForest_graft_graft hlist hwanted
  obtain ⟨-, -, -, -, -, -, -, hagain⟩ := hforest.reconcile_edits hl hf hlf hfl
  refine ⟨hforest, hl, hf, hlf, hfl, ?_, hagain⟩
  simp only [dom, live, fresh, list, wanted]
  cbv

end Dom

end LiveMarkup
