import LiveMarkup.Html.Tokenizer
import LiveMarkup.Proofs.Dom.Links
import Mathlib

/-!
# Changes with stale handles

A change that is given a stale handle leaves the arena as it is, whatever its other handle names,
but for one: a node that is to take the place of a stale one is taken from its parent
(`apply_of_stale_iff`).
-/

namespace LiveMarkup

namespace Dom

variable {dom : Dom} {id old new : NodeId}

theorem modify_of_stale (h : dom.contains id = false) (f : Node → Node) :
    dom.modify id f = dom := by
  have hnone := get?_eq_none h
  rw [modify]
  split
  · next slot hs =>
    split
    · next hg =>
      rw [get?_eq hs, if_pos hg] at hnone
      have hslot : ({ slot with node := slot.node.map f } : Slot) = slot := by
        obtain ⟨generation, node?⟩ := slot
        obtain rfl : node? = none := hnone
        rfl
      obtain ⟨hi, he⟩ := Array.getElem?_eq_some_iff.1 hs
      rw [hslot, ← he, Array.set!_eq_setIfInBounds, Array.setIfInBounds, dif_pos hi,
        Array.set_getElem_self]
    · rfl
  · rfl

theorem parent?_of_stale (h : dom.contains id = false) : dom.parent? id = none := by
  rw [parent?, get?_eq_none h]
  rfl

theorem freeTree_of_stale (h : dom.contains id = false) : dom.freeTree id = dom := by
  rw [freeTree, freeAll_cons_of_none (get?_eq_none h), freeAll]

theorem remove_of_stale (h : dom.contains id = false) : dom.remove id = dom := by
  rw [remove, detach_of_parent?_eq_none (parent?_of_stale h), freeTree_of_stale h]

theorem copyTree_of_stale (h : dom.contains id = false) : dom.copyTree id = (dom, id) := by
  rw [Dom.copyTree, tree?_of_stale h]

theorem append_of_stale {parent child : NodeId}
    (h : dom.contains parent = false ∨ dom.contains child = false) :
    dom.append parent child = dom := by
  refine append_eq_self_of_not fun hlive => ?_
  rcases h with h | h
  · rw [h] at hlive
    cases hlive.2.1
  · rw [h] at hlive
    cases hlive.2.2

/-- What was to take the place of a stale node loses its parent. -/
theorem replace_of_stale_old (h : dom.contains old = false) :
    dom.replace old new = dom.detach new := by
  by_cases hc : dom.contains new = true
  · have hne : old ≠ new := by
      rintro rfl
      rw [h] at hc
      cases hc
    have hold : (dom.detach new).contains old = false := by rw [contains_detach, h]
    rw [replace_eq_freeTree hne hc, linkOver_of_parent?_eq_none (parent?_of_stale hold),
      freeTree_of_stale hold]
  · rw [replace_eq_self_of_not fun hlive => hc hlive.2,
      detach_of_parent?_eq_none (parent?_of_stale (by simpa using hc))]

theorem detach_eq_self_iff : dom.detach id = dom ↔ dom.parent? id = none := by
  refine ⟨fun he => ?_, detach_of_parent?_eq_none⟩
  rw [← he, parent?_detach_self]

theorem replace_eq_self_iff_of_stale (h : dom.contains old = false ∨ dom.contains new = false) :
    dom.replace old new = dom ↔ dom.parent? new = none := by
  rcases h with h | h
  · rw [replace_of_stale_old h, detach_eq_self_iff]
  · refine iff_of_true (replace_eq_self_of_not fun hlive => ?_) (parent?_of_stale h)
    rw [h] at hlive
    cases hlive.2

/-- A change with a stale handle leaves the arena as it is if it does not replace a node. -/
theorem apply_of_stale [Html.Tokenizer] {change : Change}
    (h : ∃ id ∈ change.handles, dom.contains id = false)
    (hno : ∀ old new, change ≠ .replace old new) : change.apply dom = dom := by
  obtain ⟨id, hid, hstale⟩ := h
  cases change with
  | createElement tag => cases hid
  | createText s => cases hid
  | parse markup => cases hid
  | replace old new => exact absurd rfl (hno old new)
  | append parent child =>
    refine append_of_stale ?_
    rcases List.mem_pair.1 hid with rfl | rfl
    · exact .inl hstale
    · exact .inr hstale
  | copyTree node =>
    obtain rfl := List.mem_singleton.1 hid
    exact congrArg Prod.fst (copyTree_of_stale hstale)
  | remove node =>
    obtain rfl := List.mem_singleton.1 hid
    exact remove_of_stale hstale
  | release node =>
    obtain rfl := List.mem_singleton.1 hid
    exact remove_of_stale hstale
  | setText node s =>
    obtain rfl := List.mem_singleton.1 hid
    exact modify_of_stale hstale _
  | setAttribute node name value =>
    obtain rfl := List.mem_singleton.1 hid
    exact modify_of_stale hstale _
  | removeAttribute node name =>
    obtain rfl := List.mem_singleton.1 hid
    exact modify_of_stale hstale _

/-- A change with a stale handle leaves the arena as it is, unless it is to put a node that has a
parent in the place of a stale one; that node has no parent afterwards. -/
theorem apply_of_stale_iff [Html.Tokenizer] {change : Change}
    (h : ∃ id ∈ change.handles, dom.contains id = false) :
    (change.apply dom = dom ↔
      ∀ old new, change = .replace old new → dom.parent? new = none) ∧
    ∀ old new, change = .replace old new → (change.apply dom).parent? new = none := by
  by_cases hr : ∃ old new, change = .replace old new
  · obtain ⟨old, new, rfl⟩ := hr
    obtain ⟨id, hid, hstale⟩ := h
    have hpair : dom.contains old = false ∨ dom.contains new = false := by
      rcases List.mem_pair.1 hid with rfl | rfl
      · exact .inl hstale
      · exact .inr hstale
    have hiff := replace_eq_self_iff_of_stale hpair
    have hroot : (dom.replace old new).parent? new = none := by
      rcases hpair with ho | hn
      · rw [replace_of_stale_old ho, parent?_detach, if_pos rfl]
      · rw [hiff.2 (parent?_of_stale hn), parent?_of_stale hn]
    refine ⟨⟨fun he _ _ e => ?_, fun hn => hiff.2 (hn old new rfl)⟩, fun _ _ e => ?_⟩
    · cases e
      exact hiff.1 he
    · cases e
      exact hroot
  · have hno (old new : NodeId) : change ≠ .replace old new := fun e => hr ⟨old, new, e⟩
    exact ⟨iff_of_true (apply_of_stale h hno) fun old new e => absurd e (hno old new),
      fun old new e => absurd e (hno old new)⟩

/-- A root that is put in the place of a removed node stays a root, and nothing else happens. -/
theorem replace_removed_by_root :
    let dom := Dom.empty.run [.createElement "p", .createText "a", .createElement "b",
      .append ⟨0, 0⟩ ⟨1, 0⟩, .remove ⟨2, 0⟩]
    (∃ id ∈ (Change.replace ⟨2, 0⟩ ⟨0, 0⟩).handles, dom.contains id = false) ∧
      (Change.replace ⟨2, 0⟩ ⟨0, 0⟩).apply dom = dom := by
  intro dom
  have hstale : ∃ id ∈ (Change.replace ⟨2, 0⟩ ⟨0, 0⟩).handles, dom.contains id = false :=
    ⟨⟨2, 0⟩, List.mem_cons_self, by simp only [dom]; cbv⟩
  have hroot : dom.parent? ⟨0, 0⟩ = none := by
    simp only [dom]
    cbv
  refine ⟨hstale, (apply_of_stale_iff hstale).1.2 fun old new e => ?_⟩
  cases e
  exact hroot

/-- A child that is put in the place of a removed node is taken from its parent, although nothing
takes that place. -/
theorem replace_removed_by_child :
    let dom := Dom.empty.run [.createElement "p", .createText "a", .createElement "b",
      .append ⟨0, 0⟩ ⟨1, 0⟩, .remove ⟨2, 0⟩]
    dom.contains ⟨2, 0⟩ = false ∧ dom.children ⟨0, 0⟩ = [⟨1, 0⟩] ∧
      ((Change.replace ⟨2, 0⟩ ⟨1, 0⟩).apply dom).children ⟨0, 0⟩ = [] ∧
      (Change.replace ⟨2, 0⟩ ⟨1, 0⟩).apply dom ≠ dom := by
  intro dom
  have hbefore : dom.children ⟨0, 0⟩ = [⟨1, 0⟩] := by
    simp only [dom]
    cbv
  have hafter : ((Change.replace ⟨2, 0⟩ ⟨1, 0⟩).apply dom).children ⟨0, 0⟩ = [] := by
    simp only [dom]
    cbv
  refine ⟨by simp only [dom]; cbv, hbefore, hafter, fun he => ?_⟩
  rw [he, hbefore] at hafter
  cases hafter

end Dom

end LiveMarkup
