import LiveMarkup.Html.Tokenizer
import LiveMarkup.Proofs.Dom.Cycles
import LiveMarkup.Proofs.Dom.Showing
import Mathlib

/-!
# Generations of slots

A slot goes on to its next generation when it is given up, and only then (`Linked.generation_run`).
So a handle that has become stale stays so until its slot has gone through all generations
(`Linked.stale_run`), and up to then no handle is given out twice (`handles_not_reused`).

A change either makes nodes, and then no slot is given up (`Dom.Fills`), or it makes none
(`Dom.Vacates`). That all handles of a run were made in it is `Linked.mem_handlesMade_iff`.
-/

namespace LiveMarkup

namespace Dom

variable {dom dom' dom'' : Dom} {id : NodeId} {node : Node} {i : Nat} {changes : List Change}

/-- Whether a slot holds a node. -/
def holds (dom : Dom) (i : Nat) : Bool := (dom.slots[i]?.bind Slot.node).isSome

/-- The generation of a slot. One that is not there yet has the first generation. -/
def generation (dom : Dom) (i : Nat) : UInt32 := (dom.slots[i]?.map Slot.generation).getD 0

theorem contains_iff : dom.contains id = true ↔
    dom.holds id.index = true ∧ dom.generation id.index = id.generation := by
  rw [contains, get?, holds, generation]
  cases dom.slots[id.index]? with
  | none => simp
  | some slot =>
    simp only [Option.bind_some, Option.map_some, Option.getD_some]
    split
    · next hg => simp [hg]
    · next hg => simp [hg]

/-! ## Slots after the basic steps -/

theorem holds_set (hi : i < dom.slots.size) (slot : Slot) (free : List Nat) (j : Nat) :
    (Dom.mk (dom.slots.set! i slot) free).holds j =
      if j = i then slot.node.isSome else dom.holds j := by
  rw [holds, holds]
  split
  · next h => simp [h, Array.getElem?_setIfInBounds_self_of_lt hi]
  · next h => simp [Array.getElem?_setIfInBounds_ne (Ne.symm h)]

theorem generation_set (hi : i < dom.slots.size) (slot : Slot) (free : List Nat) (j : Nat) :
    (Dom.mk (dom.slots.set! i slot) free).generation j =
      if j = i then slot.generation else dom.generation j := by
  rw [generation, generation]
  split
  · next h => simp [h, Array.getElem?_setIfInBounds_self_of_lt hi]
  · next h => simp [Array.getElem?_setIfInBounds_ne (Ne.symm h)]

theorem holds_eq {slot : Slot} (h : dom.slots[i]? = some slot) :
    dom.holds i = slot.node.isSome := by
  rw [holds, h]
  rfl

theorem generation_eq {slot : Slot} (h : dom.slots[i]? = some slot) :
    dom.generation i = slot.generation := by
  rw [generation, h]
  rfl

theorem Sound.holds_allocate (h : dom.Sound) (content : Content) (hi : dom.holds i = true) :
    (dom.allocate content).1.holds i = true := by
  cases hf : dom.free with
  | nil =>
    rw [allocate_nil hf, holds]
    rw [holds] at hi
    cases hs : dom.slots[i]? with
    | none =>
      rw [hs] at hi
      cases hi
    | some slot =>
      rw [hs] at hi
      rwa [Array.getElem?_push_lt (Array.getElem?_eq_some_iff.1 hs).1,
        (Array.getElem?_eq_some_iff.1 hs).2]
  | cons index rest =>
    obtain ⟨slot, hs, hn, ha⟩ := h.allocate_cons hf content
    rw [ha, holds_set (Array.getElem?_eq_some_iff.1 hs).1, hi]
    exact ite_self true

theorem Sound.generation_allocate (h : dom.Sound) (content : Content) (i : Nat) :
    (dom.allocate content).1.generation i = dom.generation i := by
  cases hf : dom.free with
  | nil =>
    rw [allocate_nil hf, generation, generation, Array.getElem?_push]
    split
    · next he =>
      rw [he, Array.getElem?_eq_none (Nat.le_refl _)]
      rfl
    · rfl
  | cons index rest =>
    obtain ⟨slot, hs, hn, ha⟩ := h.allocate_cons hf content
    rw [ha, generation_set (Array.getElem?_eq_some_iff.1 hs).1]
    split
    · next he => rw [he, generation_eq hs]
    · rfl

/-! ## Links and contents do not matter to slots -/

/-- The same slots hold nodes, and under the same generations. -/
structure SameUse (dom dom' : Dom) : Prop where
  holds : ∀ i, dom'.holds i = dom.holds i
  generation : ∀ i, dom'.generation i = dom.generation i

namespace SameUse

theorem refl (dom : Dom) : SameUse dom dom := ⟨fun _ => rfl, fun _ => rfl⟩

theorem trans (h : SameUse dom dom') (h' : SameUse dom' dom'') : SameUse dom dom'' :=
  ⟨fun i => (h'.holds i).trans (h.holds i), fun i => (h'.generation i).trans (h.generation i)⟩

theorem modify (dom : Dom) (id : NodeId) (f : Node → Node) : SameUse dom (dom.modify id f) := by
  rw [Dom.modify]
  split
  · next slot hs =>
    have hi := (Array.getElem?_eq_some_iff.1 hs).1
    split
    · refine ⟨fun i => ?_, fun i => ?_⟩
      · rw [holds_set hi]
        split
        · next h => rw [h, holds_eq hs, Option.isSome_map]
        · rfl
      · rw [generation_set hi]
        split
        · next h => rw [h, generation_eq hs]
        · rfl
    · exact refl dom
  · exact refl dom

theorem detach (dom : Dom) (id : NodeId) : SameUse dom (dom.detach id) := by
  rw [Dom.detach]
  split
  · exact refl dom
  · exact (modify dom id _).trans (modify _ _ _)

theorem append (dom : Dom) (parent child : NodeId) : SameUse dom (dom.append parent child) := by
  rw [Dom.append]
  split
  · exact refl dom
  · exact (detach dom child).trans ((modify _ child _).trans (modify _ parent _))

theorem linkOver (dom : Dom) (old new : NodeId) : SameUse dom (dom.linkOver old new) := by
  rw [Dom.linkOver]
  split
  · exact refl dom
  · exact (modify dom _ _).trans (modify _ new _)

end SameUse

/-! ## Making and giving up -/

/-- Whether a slot is given up from one arena to the next. -/
def givesUp (dom dom' : Dom) (i : Nat) : Bool := dom.holds i && !dom'.holds i

/-- No slot is given up, and all keep their generations. -/
structure Fills (dom dom' : Dom) : Prop where
  holds : ∀ i, dom.holds i = true → dom'.holds i = true
  generation : ∀ i, dom'.generation i = dom.generation i

/-- No slot comes to hold a node, and those that are given up go on to their next generations. -/
structure Vacates (dom dom' : Dom) : Prop where
  holds : ∀ i, dom'.holds i = true → dom.holds i = true
  generation : ∀ i, dom'.generation i = dom.generation i + if dom.givesUp dom' i then 1 else 0

theorem Fills.generation_eq (h : Fills dom dom') (i : Nat) :
    dom'.generation i = dom.generation i + if dom.givesUp dom' i then 1 else 0 := by
  have hkept : dom.givesUp dom' i = false := by
    rw [givesUp]
    cases hi : dom.holds i with
    | false => rfl
    | true =>
      rw [h.holds i hi]
      rfl
  rw [hkept, h.generation i]
  exact (UInt32.add_zero _).symm

theorem Fills.trans (h : Fills dom dom') (h' : Fills dom' dom'') : Fills dom dom'' :=
  ⟨fun i hi => h'.holds i (h.holds i hi), fun i => (h'.generation i).trans (h.generation i)⟩

theorem SameUse.fills (h : SameUse dom dom') : Fills dom dom' :=
  ⟨fun i hi => (h.holds i).trans hi, h.generation⟩

theorem SameUse.vacates (h : SameUse dom dom') : Vacates dom dom' := by
  refine ⟨fun i hi => (h.holds i).symm.trans hi, fun i => ?_⟩
  rw [h.generation, givesUp, h.holds, Bool.and_not_self]
  exact (UInt32.add_zero _).symm

theorem Linked.fills (h : dom.Linked) (hm : Makes dom dom') : Fills dom dom' := by
  induction hm with
  | refl => exact (SameUse.refl dom).fills
  | allocate content hm ih =>
    have hs := (h.makes hm).sound
    exact ih.trans ⟨fun _ => hs.holds_allocate content, hs.generation_allocate content⟩
  | append parent child _ ih => exact ih.trans (SameUse.append _ parent child).fills
  | modifyAttributes other f _ ih => exact ih.trans (SameUse.modify _ other _).fills
  | modifyText other f _ ih => exact ih.trans (SameUse.modify _ other _).fills

namespace Vacates

theorem trans (h : Vacates dom dom') (h' : Vacates dom' dom'') : Vacates dom dom'' := by
  refine ⟨fun i hi => h.holds i (h'.holds i hi), fun i => ?_⟩
  rw [h'.generation, h.generation, UInt32.add_assoc]
  congr 1
  cases hi' : dom'.holds i with
  | false =>
    have hi'' : dom''.holds i = false := Bool.eq_false_iff.2 fun hc => by
      rw [h'.holds i hc] at hi'
      cases hi'
    simp [givesUp, hi', hi'']
  | true => simp [givesUp, hi', h.holds i hi']

theorem clear (dom : Dom) (id : NodeId) : Vacates dom (dom.clear id) := by
  cases hn : dom.get? id with
  | none =>
    have hsame : dom.clear id = dom := by rw [Dom.clear, hn]
    rw [hsame]
    exact (SameUse.refl dom).vacates
  | some node =>
    have hs := getElem?_of_get? hn
    have hi := index_lt_of_get? hn
    have hheld : dom.holds id.index = true := by
      rw [holds_eq hs]
      rfl
    have hclear : dom.clear id =
        ⟨dom.slots.set! id.index ⟨id.generation + 1, none⟩, id.index :: dom.free⟩ := by
      rw [Dom.clear, hn]
    rw [hclear]
    refine ⟨fun j hj => ?_, fun j => ?_⟩
    · rw [holds_set hi] at hj
      split at hj
      · cases hj
      · exact hj
    · rw [generation_set hi, givesUp, holds_set hi]
      split
      · next he =>
        rw [he, hheld, generation_eq hs]
        rfl
      · rw [Bool.and_not_self]
        exact (UInt32.add_zero _).symm

theorem freeAll (dom : Dom) (pending : List NodeId) : Vacates dom (dom.freeAll pending) :=
  freeAll_induction (motive := fun dom _ after => Vacates dom after)
    (fun dom => (SameUse.refl dom).vacates) (fun _ _ _ _ ih => ih)
    (fun dom id _ _ _ ih => (clear dom id).trans ih) dom pending

theorem remove (dom : Dom) (id : NodeId) : Vacates dom (dom.remove id) :=
  (SameUse.detach dom id).vacates.trans (freeAll _ _)

theorem replace (dom : Dom) (old new : NodeId) : Vacates dom (dom.replace old new) := by
  by_cases hlive : old ≠ new ∧ dom.contains new = true
  · rw [replace_eq_freeTree hlive.1 hlive.2]
    exact ((SameUse.detach dom new).trans (SameUse.linkOver _ old new)).vacates.trans (freeAll _ _)
  · rw [replace_eq_self_of_not hlive]
    exact (SameUse.refl dom).vacates

theorem contains (h : Vacates dom dom') (hid : dom'.contains id = true) :
    dom.contains id = true := by
  obtain ⟨hholds, hgeneration⟩ := contains_iff.1 hid
  rw [h.generation, givesUp, hholds, Bool.not_true, Bool.and_false] at hgeneration
  exact contains_iff.2 ⟨h.holds _ hholds, (UInt32.add_zero _).symm.trans hgeneration⟩

end Vacates

/-! ## Handles that a change makes -/

/-- The handles of a node and of everything below it. -/
def handlesFrom (dom : Dom) (id : NodeId) : List NodeId := ((dom.tree? id).map Tree.labels).getD []

/-- The handles of the nodes that a change makes. -/
def Change.made [Html.Tokenizer] (dom : Dom) : Change → List NodeId
  | createElement tag => [(dom.createElement tag).2]
  | createText s => [(dom.createText s).2]
  | parse markup => (dom.parseFragment markup).2.flatMap (dom.parseFragment markup).1.handlesFrom
  | copyTree node =>
    if dom.contains node then (dom.copyTree node).1.handlesFrom (dom.copyTree node).2 else []
  | append _ _ | replace _ _ | remove _ | release _ => []
  | setText _ _ | setAttribute _ _ _ | removeAttribute _ _ => []

/-- The handles of a list are there once each; these are the ones that come to name a node from one
arena to the next. -/
structure Issues (dom dom' : Dom) (ids : List NodeId) : Prop where
  nodup : ids.Nodup
  mem_iff : ∀ id, id ∈ ids ↔ dom.contains id = false ∧ dom'.contains id = true

theorem Plants.flatMap_handlesFrom {ts : List (Tree NodeId)} (h : Plants dom dom' ts) :
    (ts.map Tree.label).flatMap dom'.handlesFrom = Tree.labelsOfAll ts := by
  have hall : ∀ us : List (Tree NodeId), us ⊆ ts →
      (us.map Tree.label).flatMap dom'.handlesFrom = Tree.labelsOfAll us := by
    intro us hsub
    induction us with
    | nil => rfl
    | cons t rest ih =>
      rw [List.map_cons, List.flatMap_cons, ih fun _ hm => hsub (List.mem_cons_of_mem _ hm),
        handlesFrom, h.tree?_eq (hsub List.mem_cons_self), Tree.labelsOfAll]
      rfl
  exact hall ts fun _ hm => hm

theorem Plants.issues {ts : List (Tree NodeId)} (h : Plants dom dom' ts) :
    Issues dom dom' (Tree.labelsOfAll ts) := by
  refine ⟨h.nodup, fun id => ⟨fun hm => ⟨?_, h.hosts.isSome_of_mem hm⟩, fun ⟨hold, hnew⟩ => ?_⟩⟩
  · rw [contains, h.made id hm]
    rfl
  · by_contra hm
    rw [contains, h.get? id hm, ← contains, hold] at hnew
    cases hnew

theorem Sound.issues_allocate (h : dom.Sound) (content : Content) :
    Issues dom (dom.allocate content).1 [(dom.allocate content).2] := by
  have hlabels : Tree.labelsOfAll [.node (dom.allocate content).2 content []] =
      [(dom.allocate content).2] := by simp [Tree.labelsOfAll, Tree.labels]
  rw [← hlabels]
  exact (grafts_allocate h content).plants.issues

theorem Sound.issues_parseFragment [Html.Tokenizer] (h : dom.Sound) (markup : List Char) :
    Issues dom (dom.parseFragment markup).1 (Change.made dom (.parse markup)) := by
  obtain ⟨new, hroots, -, hplants⟩ := plants_parseFragment h markup
  rw [Change.made, hroots, hplants.flatMap_handlesFrom]
  exact hplants.issues

theorem Vacates.issues (h : Vacates dom dom') : Issues dom dom' [] := by
  refine ⟨List.nodup_nil, fun id => iff_of_false List.not_mem_nil fun ⟨hold, hnew⟩ => ?_⟩
  rw [h.contains hnew] at hold
  cases hold

theorem Sound.issues_copyTree [Html.Tokenizer] (h : dom.Sound) (node : NodeId) :
    Issues dom (dom.copyTree node).1 (Change.made dom (.copyTree node)) := by
  rw [Change.made]
  split
  · next hlive =>
    obtain ⟨t, ht⟩ := exists_tree?_eq hlive
    have hcopy : dom.copyTree node = dom.graft t := by rw [copyTree, ht]
    obtain ⟨new, hlabel, -, hgraft⟩ := grafts_graft t h
    have hplants := hgraft.plants
    have hnew : Tree.labelsOfAll [new] = (dom.graft t).1.handlesFrom new.label := by
      rw [← hplants.flatMap_handlesFrom, List.map_singleton, List.flatMap_singleton]
    rw [hcopy, hlabel, ← hnew]
    exact hplants.issues
  · next hstale =>
    have hnone := tree?_of_stale (Bool.eq_false_iff.2 hstale)
    have hsame : dom.copyTree node = (dom, node) := by rw [copyTree, hnone]
    rw [hsame]
    exact (SameUse.refl dom).vacates.issues

/-! ## Changes -/

/-- Of a change, the slots that it gives up go on to their next generations, and no others. -/
theorem Linked.generation_apply [Html.Tokenizer] (h : dom.Linked) (change : Change) (i : Nat) :
    (change.apply dom).generation i =
      dom.generation i + if dom.givesUp (change.apply dom) i then 1 else 0 := by
  cases change with
  | createElement tag => exact (h.fills (.allocate _ .refl)).generation_eq i
  | createText s => exact (h.fills (.allocate _ .refl)).generation_eq i
  | parse markup => exact (h.fills (makes_parseFragment dom markup)).generation_eq i
  | copyTree node => exact (h.fills (makes_copyTree dom node)).generation_eq i
  | append parent child => exact (SameUse.append dom parent child).vacates.generation i
  | replace old new => exact (Vacates.replace dom old new).generation i
  | remove node => exact (Vacates.remove dom node).generation i
  | release node => exact (Vacates.remove dom node).generation i
  | setText node s => exact (SameUse.modify dom node _).vacates.generation i
  | setAttribute node name value => exact (SameUse.modify dom node _).vacates.generation i
  | removeAttribute node name => exact (SameUse.modify dom node _).vacates.generation i

theorem Sound.issues_made [Html.Tokenizer] (h : dom.Sound) (change : Change) :
    Issues dom (change.apply dom) (change.made dom) := by
  cases change with
  | createElement tag => exact h.issues_allocate _
  | createText s => exact h.issues_allocate _
  | parse markup => exact h.issues_parseFragment markup
  | copyTree node => exact h.issues_copyTree node
  | append parent child => exact (SameUse.append dom parent child).vacates.issues
  | replace old new => exact (Vacates.replace dom old new).issues
  | remove node => exact (Vacates.remove dom node).issues
  | release node => exact (Vacates.remove dom node).issues
  | setText node s => exact (SameUse.modify dom node _).vacates.issues
  | setAttribute node name value => exact (SameUse.modify dom node _).vacates.issues
  | removeAttribute node name => exact (SameUse.modify dom node _).vacates.issues

/-! ## Runs -/

section

variable [Html.Tokenizer]

/-- How often a slot is given up in a run. -/
def timesGivenUp (dom : Dom) (i : Nat) : List Change → Nat
  | [] => 0
  | change :: rest =>
    (if dom.givesUp (change.apply dom) i then 1 else 0) + (change.apply dom).timesGivenUp i rest

/-- The handles of the nodes that are made in a run, those made first in front. -/
def handlesMade (dom : Dom) : List Change → List NodeId
  | [] => []
  | change :: rest => change.made dom ++ (change.apply dom).handlesMade rest

theorem timesGivenUp_append (dom : Dom) (i : Nat) (changes later : List Change) :
    dom.timesGivenUp i (changes ++ later) =
      dom.timesGivenUp i changes + (dom.run changes).timesGivenUp i later := by
  induction changes generalizing dom with
  | nil => exact (Nat.zero_add _).symm
  | cons change rest ih =>
    rw [List.cons_append, timesGivenUp, timesGivenUp, ih, Nat.add_assoc]
    rfl

theorem timesGivenUp_le_length (dom : Dom) (i : Nat) (changes : List Change) :
    dom.timesGivenUp i changes ≤ changes.length := by
  induction changes generalizing dom with
  | nil => exact Nat.le_refl 0
  | cons change rest ih =>
    have := ih (change.apply dom)
    rw [timesGivenUp, List.length_cons]
    split <;> omega

theorem handlesMade_append (dom : Dom) (changes later : List Change) :
    dom.handlesMade (changes ++ later) =
      dom.handlesMade changes ++ (dom.run changes).handlesMade later := by
  induction changes generalizing dom with
  | nil => rfl
  | cons change rest ih =>
    rw [List.cons_append, handlesMade, handlesMade, ih, List.append_assoc]
    rfl

/-- A slot that is not given up in a run goes on holding a node. -/
theorem holds_run (hi : dom.holds i = true) (h : dom.timesGivenUp i changes = 0) :
    (dom.run changes).holds i = true := by
  induction changes generalizing dom with
  | nil => exact hi
  | cons change rest ih =>
    rw [timesGivenUp, Nat.add_eq_zero_iff] at h
    refine ih ?_ h.2
    by_contra hc
    rw [givesUp, hi, Bool.eq_false_iff.2 hc] at h
    exact Nat.one_ne_zero h.1

/-- In a run a slot goes on by as many generations as it is given up. -/
theorem Linked.generation_run (h : dom.Linked) (changes : List Change) (i : Nat) :
    (dom.run changes).generation i =
      dom.generation i + UInt32.ofNat (dom.timesGivenUp i changes) := by
  induction changes generalizing dom with
  | nil => exact (UInt32.add_zero _).symm
  | cons change rest ih =>
    have hlater : (dom.run (change :: rest)).generation i = _ := ih (h.apply change)
    rw [hlater, h.generation_apply, timesGivenUp, UInt32.ofNat_add, UInt32.add_assoc]
    congr 2
    split <;> rfl

/-- A node whose slot is not given up in a run stays live. -/
theorem Linked.contains_run (h : dom.Linked) (hid : dom.contains id = true)
    (hkept : dom.timesGivenUp id.index changes = 0) : (dom.run changes).contains id = true := by
  obtain ⟨hholds, hgeneration⟩ := contains_iff.1 hid
  refine contains_iff.2 ⟨holds_run hholds hkept, ?_⟩
  rw [h.generation_run, hkept, hgeneration]
  exact UInt32.add_zero _

/-- A handle that has become stale stays so as long as its slot is not given up as often as there
are generations. -/
theorem Linked.stale_run (h : dom.Linked) (hid : dom.contains id = true) {middle late : List Change}
    (hgone : (dom.run middle).contains id = false)
    (hfew : dom.timesGivenUp id.index (middle ++ late) < UInt32.size) :
    (dom.run (middle ++ late)).contains id = false := by
  by_contra hback
  have hgeneration := (contains_iff.1 (Bool.eq_true_of_not_eq_false hback)).2
  rw [h.generation_run, (contains_iff.1 hid).2, UInt32.add_eq_left,
    UInt32.ofNat_eq_iff_mod_eq_toNat, Nat.mod_eq_of_lt hfew] at hgeneration
  have hzero : dom.timesGivenUp id.index (middle ++ late) = 0 := hgeneration
  rw [timesGivenUp_append, Nat.add_eq_zero_iff] at hzero
  rw [h.contains_run hid hzero.1] at hgone
  cases hgone

/-- The handles that name a node in the course of a run are those that did so from the start and
those that were made. -/
theorem Linked.mem_handlesMade_iff (h : dom.Linked) (changes : List Change) (id : NodeId) :
    dom.contains id = true ∨ id ∈ dom.handlesMade changes ↔
      ∃ done, done <+: changes ∧ (dom.run done).contains id = true := by
  induction changes using List.reverseRecOn with
  | nil =>
    simp only [handlesMade, List.not_mem_nil, or_false, List.prefix_nil]
    refine ⟨fun hid => ⟨[], rfl, hid⟩, ?_⟩
    rintro ⟨_, rfl, hid⟩
    exact hid
  | append_singleton done change ih =>
    have hissued := ((h.run done).sound.issues_made change).mem_iff id
    have hmade : dom.handlesMade (done ++ [change]) =
        dom.handlesMade done ++ change.made (dom.run done) := by
      rw [handlesMade_append, handlesMade, handlesMade, List.append_nil]
    have hrun : dom.run (done ++ [change]) = change.apply (dom.run done) := run_append dom done _
    rw [hmade, List.mem_append, ← or_assoc, ih, hissued]
    constructor
    · rintro (⟨early, he, hid⟩ | ⟨-, hid⟩)
      · exact ⟨early, he.trans (List.prefix_append _ _), hid⟩
      · exact ⟨done ++ [change], List.prefix_rfl, by rw [hrun, hid]⟩
    · rintro ⟨early, he, hid⟩
      rcases List.prefix_concat_iff.1 he with rfl | he
      · rw [hrun] at hid
        cases hdone : (dom.run done).contains id with
        | true => exact .inl ⟨done, List.prefix_rfl, hdone⟩
        | false => exact .inr ⟨rfl, hid⟩
      · exact .inl ⟨early, he, hid⟩

/-- A handle that is made in a run was stale at its beginning, unless a slot is given up as often as
there are generations. -/
theorem Linked.stale_of_mem_handlesMade (h : dom.Linked)
    (hfew : ∀ i, dom.timesGivenUp i changes < UInt32.size) (hid : id ∈ dom.handlesMade changes) :
    dom.contains id = false := by
  induction changes using List.reverseRecOn with
  | nil => cases hid
  | append_singleton done change ih =>
    rw [handlesMade_append, handlesMade, handlesMade, List.append_nil, List.mem_append] at hid
    rcases hid with hid | hid
    · refine ih (fun i => ?_) hid
      have := hfew i
      rw [timesGivenUp_append] at this
      omega
    · obtain ⟨hgone, hback⟩ := (((h.run done).sound.issues_made change).mem_iff id).1 hid
      by_contra hlive
      have hstale := h.stale_run (Bool.eq_true_of_not_eq_false hlive) hgone (hfew id.index)
      rw [run_append] at hstale
      exact Bool.eq_false_iff.1 hstale hback

theorem Linked.nodup_handlesMade (h : dom.Linked)
    (hfew : ∀ i, dom.timesGivenUp i changes < UInt32.size) : (dom.handlesMade changes).Nodup := by
  induction changes using List.reverseRecOn with
  | nil => exact List.nodup_nil
  | append_singleton done change ih =>
    have hissued := (h.run done).sound.issues_made change
    have hdone := ih fun i => by
      have := hfew i
      rw [timesGivenUp_append] at this
      omega
    rw [handlesMade_append, handlesMade, handlesMade, List.append_nil]
    refine hdone.append hissued.nodup fun id hid hnew => ?_
    -- A handle made earlier is stale before this change, so it would come back with it.
    obtain ⟨hgone, hback⟩ := (hissued.mem_iff id).1 hnew
    obtain ⟨early, ⟨middle, rfl⟩, hlive⟩ := (h.mem_handlesMade_iff done id).1 (.inr hid)
    have hlater : (dom.run early).timesGivenUp id.index (middle ++ [change]) < UInt32.size := by
      have := hfew id.index
      rw [List.append_assoc, timesGivenUp_append] at this
      omega
    rw [run_append] at hgone hback
    have hstale := (h.run early).stale_run hlive hgone hlater
    rw [run_append] at hstale
    exact Bool.eq_false_iff.1 hstale hback

/-- Unless a slot is given up as often as there are generations, no handle is given out twice in a
run, and a handle that has become stale stays so. The handles that are given out are all those that
ever name a node. -/
theorem handles_not_reused (changes : List Change)
    (h : ∀ i, Dom.empty.timesGivenUp i changes < UInt32.size) :
    (Dom.empty.handlesMade changes).Nodup ∧
      (∀ id, id ∈ Dom.empty.handlesMade changes ↔
        ∃ done, done <+: changes ∧ (Dom.empty.run done).contains id = true) ∧
      ∀ early middle late id, early ++ middle ++ late <+: changes →
        (Dom.empty.run early).contains id = true →
        (Dom.empty.run (early ++ middle)).contains id = false →
        (Dom.empty.run (early ++ middle ++ late)).contains id = false := by
  refine ⟨linked_empty.nodup_handlesMade h, fun id => ?_, ?_⟩
  · rw [← linked_empty.mem_handlesMade_iff changes id]
    exact (or_iff_right Bool.false_ne_true).symm
  · rintro early middle late id ⟨rest, rfl⟩ hlive hgone
    have hfew := h id.index
    rw [List.append_assoc, List.append_assoc, timesGivenUp_append, ← List.append_assoc,
      timesGivenUp_append] at hfew
    rw [run_append] at hgone
    rw [List.append_assoc, run_append]
    exact (linked_empty.run early).stale_run hlive hgone (by omega)

end

/-- A tree is removed and two more nodes are made, in its slots but under other handles. -/
theorem handles_of_removed_stay_stale :
    let changes : List Change := [.createElement "p", .createText "a", .append ⟨0, 0⟩ ⟨1, 0⟩,
      .remove ⟨0, 0⟩, .createElement "b", .createText "c"]
    (∀ i, Dom.empty.timesGivenUp i changes < UInt32.size) ∧
      Dom.empty.handlesMade changes = [⟨0, 0⟩, ⟨1, 0⟩, ⟨1, 1⟩, ⟨0, 1⟩] ∧
      (Dom.empty.handlesMade changes).Nodup ∧
      (Dom.empty.run changes).contains ⟨1, 0⟩ = false := by
  intro changes
  have hfew (i : Nat) : Dom.empty.timesGivenUp i changes < UInt32.size :=
    Nat.lt_of_le_of_lt (timesGivenUp_le_length Dom.empty i changes) (by decide)
  have hreused := handles_not_reused changes hfew
  refine ⟨hfew, by simp only [changes]; cbv, hreused.1, ?_⟩
  exact hreused.2.2 [.createElement "p", .createText "a", .append ⟨0, 0⟩ ⟨1, 0⟩]
    [.remove ⟨0, 0⟩] [.createElement "b", .createText "c"] ⟨1, 0⟩ List.prefix_rfl (by cbv) (by cbv)

end Dom

end LiveMarkup
