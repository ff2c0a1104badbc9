import LiveMarkup.Html.Tokenizer
import LiveMarkup.Proofs.Dom.Editing
import LiveMarkup.Proofs.Dom.InPlace
import LiveMarkup.Proofs.Dom.Paths

/-!
# Which nodes are kept

A node of the live tree is kept by reconciling if and only if the two trees match along the path to
it (`Aligned.kept_iff`). The other nodes of the live tree are not in the result, and where the trees
do not match, the nodes of the result are copies made on the way.

In a forest this says which handles stay and which become stale (`IsForest.reconcile_identity`). A
slot that is given up on the way is used again for later copies, so the handles of these are told
from those of the live tree by their generations, as long as no slot goes through all of them.
-/

namespace LiveMarkup

theorem Tree.MatchedAlong.exists_labelAt? {α : Type} {t u : Tree α} {path : List Nat}
    (h : t.MatchedAlong u path) : ∃ x, t.labelAt? path = some x := by
  obtain ⟨v, -, hv, -⟩ := h path List.prefix_rfl
  exact ⟨v.label, by rw [labelAt?, hv, Option.map_some]⟩

namespace Dom

variable {dom : Dom} {live fresh x : NodeId} {t u v : Tree NodeId} {edits : List Edit}
  {path : List Nat}

namespace Aligned

/-- Where the trees do not match, the aligned one has the label of a copy. -/
theorem mem_made_of_labelAt? (h : Aligned t u v edits) (hm : ¬ t.MatchedAlong u path)
    (hx : v.labelAt? path = some x) : x ∈ edits.flatMap Edit.made := by
  induction path generalizing t u v edits with
  | nil =>
    rw [Tree.matchedAlong_nil] at hm
    cases h with
    | text => exact absurd trivial hm
    | element => exact absurd rfl hm
    | replaced _ _ =>
      exact List.mem_flatMap.2 ⟨_, List.mem_cons_self, Tree.mem_labels_of_labelAt? hx⟩
  | cons i path ih =>
    cases h with
    | text => cases hx
    | replaced _ _ =>
      exact List.mem_flatMap.2 ⟨_, List.mem_cons_self, Tree.mem_labels_of_labelAt? hx⟩
    | @element a b tag attributes wanted ts us vs edits hall =>
      obtain ⟨v', hv, hx⟩ := Tree.exists_child_of_labelAt? hx
      rw [List.flatMap_append]
      refine List.mem_append_right _ ?_
      cases ht : ts[i]? with
      | none =>
        obtain ⟨node, hcopy⟩ := hall.exists_copy ht hv
        exact List.mem_flatMap.2 ⟨_, hcopy, Tree.mem_labels_of_labelAt? hx⟩
      | some t' =>
        have hi : i < us.length := hall.length_eq ▸ (List.getElem?_eq_some_iff.1 hv).1
        have hu : us[i]? = some us[i] := List.getElem?_eq_getElem hi
        obtain ⟨v'', before, own, after, hv', hown, rfl, -⟩ := hall.exists_aligned ht hu
        obtain rfl := Option.some.inj (hv.symm.trans hv')
        have hm' : ¬ t'.MatchedAlong us[i] path := fun hm' =>
          hm (Tree.matchedAlong_cons.2 ⟨rfl, t', us[i], ht, hu, hm'⟩)
        rw [List.flatMap_append, List.flatMap_append]
        exact List.mem_append_left _ (List.mem_append_right _ (ih hown hm' hx))

/-- A node is kept if and only if the trees match along the path to it. -/
theorem kept_iff (h : Aligned t u v edits) (hnew : ∀ x ∈ edits.flatMap Edit.made, x ∉ t.labels)
    (path : List Nat) :
    (∃ x, t.labelAt? path = some x ∧ v.labelAt? path = some x) ↔ t.MatchedAlong u path := by
  constructor
  · rintro ⟨x, ht, hv⟩
    by_contra hm
    exact hnew x (h.mem_made_of_labelAt? hm hv) (Tree.mem_labels_of_labelAt? ht)
  · intro hm
    obtain ⟨x, hx⟩ := hm.exists_labelAt?
    exact ⟨x, hx, (h.labelAt?_eq hm).trans hx⟩

/-- A node that is not kept is nowhere in the result. -/
theorem notMem_labels_of_labelAt? (h : Aligned t u v edits)
    (hnew : ∀ x ∈ edits.flatMap Edit.made, x ∉ t.labels) (hn : t.labels.Nodup)
    (hm : ¬ t.MatchedAlong u path) (hx : t.labelAt? path = some x) : x ∉ v.labels := by
  intro hv
  -- It would be at another path, as a node that is kept there or as a copy.
  obtain ⟨other, hother⟩ := Tree.exists_labelAt?_of_mem hv
  by_cases hmatched : t.MatchedAlong u other
  · rw [h.labelAt?_eq hmatched] at hother
    exact hm (Tree.eq_of_labelAt? hn hx hother ▸ hmatched)
  · exact hnew x (h.mem_made_of_labelAt? hmatched hother) (Tree.mem_labels_of_labelAt? hx)

end Aligned

/-- After reconciling two trees of a forest, the node at a path of the result is the one that was
there if and only if the trees match along the path. Where they do not, the node that was there is
stale, and the one that is there was made on the way. -/
theorem IsForest.reconcile_identity [Html.Tokenizer] (h : dom.IsForest)
    (hl : dom.contains live = true) (hf : dom.contains fresh = true)
    (hlf : ¬ dom.Below live fresh) (hfl : ¬ dom.Below fresh live)
    (hfew : ∀ i, dom.timesGivenUp i ((dom.reconcile live fresh).1.edits.map Edit.change) <
      UInt32.size) :
    let after := (dom.reconcile live fresh).1.dom
    let result := (dom.reconcile live fresh).2
    let changes := (dom.reconcile live fresh).1.edits.map Edit.change
    ∃ old wanted made : Tree NodeId,
      dom.tree? live = some old ∧ dom.tree? fresh = some wanted ∧ after.tree? result = some made ∧
      after = dom.run changes ∧ ∀ path,
        ((∃ x, old.labelAt? path = some x ∧ made.labelAt? path = some x) ↔
          old.MatchedAlong wanted path) ∧
        (¬ old.MatchedAlong wanted path →
          (∀ x, old.labelAt? path = some x → after.contains x = false) ∧
          ∀ x, made.labelAt? path = some x →
            dom.contains x = false ∧ x ∈ dom.handlesMade changes) := by
  intro after result changes
  obtain ⟨old, wanted, made, hout⟩ := h.exists_outcome hl hf hlf hfl
  have hrecords := records_reconcile dom live fresh
  -- The handle of a copy was stale before, even if its slot was given up by the live tree.
  have hmade : ∀ x ∈ (dom.reconcile live fresh).1.edits.flatMap Edit.made,
      dom.contains x = false ∧ x ∈ dom.handlesMade changes := fun x hx => by
    rw [← hrecords.made_eq] at hx
    exact ⟨h.linked.stale_of_mem_handlesMade hfew hx, hx⟩
  have hnew : ∀ x ∈ (dom.reconcile live fresh).1.edits.flatMap Edit.made, x ∉ old.labels :=
    fun x hx hm => Bool.eq_false_iff.1 (hmade x hx).1 (hout.liveTree.hosts.isSome_of_mem hm)
  refine ⟨old, wanted, made, hout.liveTree.tree?_eq, hout.freshTree.tree?_eq, hout.tree?_eq,
    hrecords.dom_eq, fun path =>
      ⟨hout.aligned.kept_iff hnew path, fun hm => ⟨fun x hx => ?_, fun x hx => ?_⟩⟩⟩
  · have hgone := hout.aligned.notMem_labels_of_labelAt? hnew hout.liveTree.nodup hm hx
    rw [contains, hout.swaps.get? x hgone, if_pos (Tree.mem_labels_of_labelAt? hx)]
    rfl
  · exact hmade x (hout.aligned.mem_made_of_labelAt? hm hx)

/-- A list with another text in its first item and another element behind it: the text node is kept,
and the element behind the item is not. -/
theorem IsForest.reconcile_identity_of_list :
    let list : Tree Unit := .node () (.element "ul" [])
      [.node () (.element "li" []) [.node () (.text "x") []], .node () (.element "b" []) []]
    let wanted : Tree Unit := .node () (.element "ul" [])
      [.node () (.element "li" []) [.node () (.text "y") []], .node () (.element "i" []) []]
    let live := (Dom.empty.graft list).2
    let dom := ((Dom.empty.graft list).1.graft wanted).1
    let fresh := ((Dom.empty.graft list).1.graft wanted).2
    let after := (dom.reconcile live fresh).1.dom
    dom.IsForest ∧ dom.contains live = true ∧ dom.contains fresh = true ∧
      ¬ dom.Below live fresh ∧ ¬ dom.Below fresh live ∧
      (∀ i, dom.timesGivenUp i ((dom.reconcile live fresh).1.edits.map Edit.change) <
        UInt32.size) ∧
      ∃ made, after.tree? (dom.reconcile live fresh).2 = some made ∧
        made.labelAt? [0, 0] = some ⟨2, 0⟩ ∧ after.contains ⟨3, 0⟩ = false := by
  intro list wanted live dom fresh after
  have hlist : list.WellFormed := by
    simp [list, Tree.WellFormed, Tree.WellFormedAll, Content.WellFormed, OrderedMap.Distinct]
  have hwanted : wanted.WellFormed := by
    simp [wanted, Tree.WellFormed, Tree.WellFormedAll, Content.WellFormed, OrderedMap.Distinct]
  obtain ⟨hforest, hl, hf, hlf, hfl⟩ : dom.IsForest ∧ dom.contains live = true ∧
      dom.contains fresh = true ∧ ¬ dom.Below live fresh ∧ ¬ dom.Below fresh live :=
    isForest_graft_graft hlist hwanted
  have hlength : (dom.reconcile live fresh).1.edits.length = 3 := by
    simp only [dom, live, fresh, list, wanted]
    cbv
  have hfew (i : Nat) : dom.timesGivenUp i ((dom.reconcile live fresh).1.edits.map Edit.change) <
      UInt32.size := by
    refine Nat.lt_of_le_of_lt (timesGivenUp_le_length dom i _) ?_
    rw [List.length_map, hlength]
    decide
  have hold : dom.tree? live = some (.node ⟨0, 0⟩ (.element "ul" [])
      [.node ⟨1, 0⟩ (.element "li" []) [.node ⟨2, 0⟩ (.text "x") []],
        .node ⟨3, 0⟩ (.element "b" []) []]) := by
    simp only [dom, live, list, wanted]
    cbv
  have hnew : dom.tree? fresh = some (.node ⟨4, 0⟩ (.element "ul" [])
      [.node ⟨5, 0⟩ (.element "li" []) [.node ⟨6, 0⟩ (.text "y") []],
        .node ⟨7, 0⟩ (.element "i" []) []]) := by
    simp only [dom, fresh, list, wanted]
    cbv
  obtain ⟨old, new, made, hold', hnew', hmade, -, hpaths⟩ :=
    hforest.reconcile_identity hl hf hlf hfl hfew
  obtain rfl := Option.some.inj (hold.symm.trans hold')
  obtain rfl := Option.some.inj (hnew.symm.trans hnew')
  refine ⟨hforest, hl, hf, hlf, hfl, hfew, made, hmade, ?_, ?_⟩
  · obtain ⟨x, hx, hkept⟩ := (hpaths [0, 0]).1.2 (by
      simp [Tree.matchedAlong_cons, Tree.matchedAlong_nil, Tree.children, Tree.content,
        Content.Matches])
    exact hkept.trans hx.symm
  · refine ((hpaths [1]).2 ?_).1 ⟨3, 0⟩ rfl
    simp [Tree.matchedAlong_cons, Tree.matchedAlong_nil, Tree.children, Tree.content,
      Content.Matches]

end Dom

end LiveMarkup
