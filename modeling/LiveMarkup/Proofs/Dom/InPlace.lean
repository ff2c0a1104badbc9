import LiveMarkup.Proofs.Dom.Forest
import LiveMarkup.Proofs.Dom.Reconciliation

/-!
# Reconciling in a forest

Reconciling two nodes of a forest, neither of which is below the other, puts a tree that is alike to
the fresh one where the live one was. Everything else stays as it was, but for the one entry of the
parent's children (`IsForest.reconcile`).
-/

namespace LiveMarkup

namespace Dom

variable {dom : Dom} {live fresh id parent : NodeId}

theorem IsForest.not_below_parent? (h : dom.IsForest) (hp : dom.parent? id = some parent) :
    ¬ dom.Below parent id := Acyclic.not_below_parent? h.acyclic hp

theorem IsForest.apart (h : dom.IsForest) {t u : Tree NodeId} (ht : IsForest.IsTreeOf dom live t)
    (hu : IsForest.IsTreeOf dom fresh u) (hlf : ¬ dom.Below live fresh)
    (hfl : ¬ dom.Below fresh live) :
    Apart dom (dom.parent? live) t (dom.parent? fresh) u := by
  refine ⟨h.sound, ht.hosts, hu.hosts, ht.nodup, hu.nodup, fun id hid hid' => ?_, ht.wellFormed,
    hu.wellFormed, fun p hp => ⟨?_, fun hm => ?_⟩⟩
  · rcases below_total ((ht.mem_iff id).1 hid) ((hu.mem_iff id).1 hid') with hb | hb
    · exact hlf hb
    · exact hfl hb
  · obtain ⟨node, hn, -⟩ := h.mem_children hp
    rw [hn]
    rfl
  · exact h.not_below_parent? hp ((ht.mem_iff p).1 hm)

/-- The trees of two nodes that are not below one another, and the tree that reconciling them makes
of the first one. -/
structure IsForest.Outcome (dom : Dom) (live fresh : NodeId) (old wanted made : Tree NodeId) :
    Prop where
  liveTree : IsForest.IsTreeOf dom live old
  freshTree : IsForest.IsTreeOf dom fresh wanted
  apart : Apart dom (dom.parent? live) old (dom.parent? fresh) wanted
  result : (dom.reconcile live fresh).2 = made.label
  aligned : Aligned old wanted made (dom.reconcile live fresh).1.edits
  swaps : Swaps dom (dom.reconcile live fresh).1.dom (dom.parent? live) old made

theorem IsForest.exists_outcome (h : dom.IsForest) (hl : dom.contains live = true)
    (hf : dom.contains fresh = true) (hlf : ¬ dom.Below live fresh) (hfl : ¬ dom.Below fresh live) :
    ∃ old wanted made, IsForest.Outcome dom live fresh old wanted made := by
  obtain ⟨old, hold⟩ := h.exists_isTreeOf hl
  obtain ⟨wanted, hwanted⟩ := h.exists_isTreeOf hf
  have hapart := h.apart hold hwanted hlf hfl
  have hdone := reconciled_reconcile hapart
  rw [hold.label, hwanted.label] at hdone
  obtain ⟨made, edits, hresult, haligned, hedits, hswaps⟩ := hdone
  rw [List.nil_append] at hedits
  exact ⟨old, wanted, made, hold, hwanted, hapart, hresult, hedits ▸ haligned, hswaps⟩

theorem IsForest.Outcome.tree?_eq {old wanted made : Tree NodeId}
    (h : IsForest.Outcome dom live fresh old wanted made) :
    (dom.reconcile live fresh).1.dom.tree? (dom.reconcile live fresh).2 = some made := by
  rw [h.result]
  exact h.swaps.hosts.tree?_eq h.swaps.nodup

/-- Reconciling answers with a node whose tree is alike to the fresh one, in the place of the live
one. The fresh tree stays, every other node outside of the live tree keeps what it is, its parent
and its children, except for the entry of the live node, and the number of nodes changes by the
difference of the two trees. -/
theorem IsForest.reconcile (h : dom.IsForest) (hl : dom.contains live = true)
    (hf : dom.contains fresh = true) (hlf : ¬ dom.Below live fresh) (hfl : ¬ dom.Below fresh live) :
    let after := (dom.reconcile live fresh).1.dom
    let result := (dom.reconcile live fresh).2
    ∃ old wanted made : Tree NodeId,
      dom.tree? live = some old ∧ dom.tree? fresh = some wanted ∧ after.tree? result = some made ∧
      made.Alike wanted ∧
      after.parent? result = dom.parent? live ∧
      (∀ p, dom.parent? live = some p →
        live ∈ dom.children p ∧ after.children p = substitute live result (dom.children p)) ∧
      after.tree? fresh = some wanted ∧
      (∀ id node, dom.get? id = some node → ¬ dom.Below id live →
        after.get? id = some (editChildren (dom.parent? live) (substitute live result) id node)) ∧
      after.size + old.labels.length = dom.size + wanted.labels.length := by
  intro after result
  obtain ⟨t, ht⟩ := h.exists_isTreeOf hl
  obtain ⟨u, hu⟩ := h.exists_isTreeOf hf
  have hapart := h.apart ht hu hlf hfl
  have hdone := reconciled_reconcile hapart
  rw [ht.label, hu.label] at hdone
  obtain ⟨made, edits, hresult, haligned, -, hswap⟩ := hdone
  have halike := haligned.alike ht.wellFormed hu.wellFormed
  have hframe : ∀ id node, dom.get? id = some node → ¬ dom.Below id live →
      after.get? id = some (editChildren (dom.parent? live) (substitute live result) id node) := by
    intro id node hn hb
    have hout : id ∉ t.labels := fun hm => hb ((ht.mem_iff id).1 hm)
    have hnew : id ∉ made.labels := fun hm => by
      rcases hswap.made id hm with hm | hm
      · exact hout hm
      · rw [hn] at hm
        cases hm
    rw [hswap.get? id hnew, if_neg hout, hn, Option.map_some, ht.label, ← hresult]
  refine ⟨t, u, made, ht.tree?_eq, hu.tree?_eq, ?_, halike, ?_, fun p hp => ?_, ?_, hframe, ?_⟩
  · rw [show result = made.label from hresult]
    exact hswap.hosts.tree?_eq hswap.nodup
  · rw [show result = made.label from hresult]
    exact parent?_eq hswap.hosts.get?_label
  · obtain ⟨node, hn, hmem⟩ := h.mem_children hp
    rw [children, children, hn, hframe p node hn (h.not_below_parent? hp), hp, editChildren_self]
    exact ⟨hmem, rfl⟩
  · have hkept : Hosts after (dom.parent? fresh) u := hu.hosts.congr fun x hx => by
      obtain ⟨node, hn⟩ := Option.isSome_iff_exists.1 (hu.hosts.isSome_of_mem hx)
      have hp : dom.parent? live ≠ some x := fun hp =>
        hlf (((hu.mem_iff x).1 hx).head hp)
      rw [hframe x node hn fun hb => hapart.disjoint x ((ht.mem_iff x).2 hb) hx, editChildren,
        if_neg hp, hn]
    have := hkept.tree?_eq hu.nodup
    rwa [hu.label] at this
  · have := hswap.size
    rwa [halike.length_labels] at this

/-- The first item of a list is reconciled with an item that has other attributes and another text:
it becomes alike to that one, and is still the first item of the list. -/
theorem IsForest.reconcile_item :
    let list : Tree Unit := .node () (.element "ul" []) [.node () (.element "li" [("class", "a")])
      [.node () (.text "x") []], .node () (.text "z") []]
    let item : Tree Unit := .node () (.element "li" [("id", "b")]) [.node () (.text "y") []]
    let dom := ((Dom.empty.graft list).1.graft item).1
    let live : NodeId := ⟨1, 0⟩
    let fresh : NodeId := ⟨4, 0⟩
    dom.IsForest ∧ dom.contains live = true ∧ dom.contains fresh = true ∧
      ¬ dom.Below live fresh ∧ ¬ dom.Below fresh live ∧
      ∃ made, (dom.reconcile live fresh).1.dom.tree? (dom.reconcile live fresh).2 = some made ∧
        made.Alike item ∧ (dom.reconcile live fresh).1.dom.children ⟨0, 0⟩ =
          [(dom.reconcile live fresh).2, ⟨3, 0⟩] := by
  intro list item dom live fresh
  have hlist : list.WellFormed := by
    simp [list, Tree.WellFormed, Tree.WellFormedAll, Content.WellFormed, OrderedMap.Distinct]
  have hitem : item.WellFormed := by
    simp [item, Tree.WellFormed, Tree.WellFormedAll, Content.WellFormed, OrderedMap.Distinct]
  obtain ⟨new, -, -, hone⟩ := consistsOf_empty.graft hlist
  obtain ⟨new', hnew, hcopy, htwo⟩ := hone.graft hitem
  have hforest : dom.IsForest := htwo.isForest
  have hlive : dom.parent? live = some ⟨0, 0⟩ ∧ dom.contains live = true := by
    simp only [dom, list, item, live]
    decide +kernel
  have hfresh : dom.parent? fresh = none ∧ dom.contains fresh = true ∧
      ((Dom.empty.graft list).1.graft item).2 = fresh := by
    simp only [dom, list, item, fresh]
    decide +kernel
  have htop : dom.parent? ⟨0, 0⟩ = none ∧ dom.children ⟨0, 0⟩ = [live, ⟨3, 0⟩] := by
    simp only [dom, list, item, live]
    decide +kernel
  have hlf : ¬ dom.Below live fresh := fun hb => by
    rcases Relation.ReflTransGen.cases_head hb with he | ⟨p, hp, hb⟩
    · exact absurd he (by decide)
    · obtain rfl := Option.some.inj (hlive.1.symm.trans hp)
      rcases Relation.ReflTransGen.cases_head hb with he | ⟨q, hq, -⟩
      · exact absurd he (by decide)
      · exact Option.some_ne_none q (hq.symm.trans htop.1)
  have hfl : ¬ dom.Below fresh live := fun hb => by
    rcases Relation.ReflTransGen.cases_head hb with he | ⟨p, hp, -⟩
    · exact absurd he (by decide)
    · exact Option.some_ne_none p (hp.symm.trans hfresh.1)
  have hmem : new' ∈ [] ++ [new] ++ [new'] := by simp
  have htree : dom.tree? fresh = some new' := by
    have := (hostsAll_iff.1 htwo.hosts new' hmem).tree?_eq
      (htwo.nodup.sublist (Tree.labels_sublist_of_mem hmem))
    rwa [← hnew, hfresh.2.2] at this
  obtain ⟨old, wanted, made, -, hwanted, hmade, halike, -, hplace, -⟩ :=
    hforest.reconcile hlive.2 hfresh.2.1 hlf hfl
  rw [htree, Option.some_inj] at hwanted
  have hplace := (hplace ⟨0, 0⟩ hlive.1).2
  rw [htop.2, substitute, if_pos rfl] at hplace
  rw [← hwanted] at halike
  exact ⟨hforest, hlive.2, hfresh.2.1, hlf, hfl, made, hmade, halike.trans hcopy.alike.symm, hplace⟩

end Dom

end LiveMarkup
