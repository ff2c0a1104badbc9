import LiveMarkup.Dom.Arena
import Mathlib.Data.List.Nodup

/-!
# Slots of the arena

An arena is seen through its handles: `Dom.get?` after each of the basic steps is `Dom.get?` before
it, changed at one handle (`get?_modify`, `get?_clear`, `Sound.get?_allocate`). For the last of
these the list of free slots has to be right: it holds each vacant slot once and nothing else
(`Dom.Sound`). All basic steps keep it so.
-/

namespace LiveMarkup

namespace Dom

variable {dom : Dom} {id other : NodeId} {node : Node} {slot : Slot} {content : Content}

/-! ## What handles name -/

theorem get?_eq (h : dom.slots[id.index]? = some slot) :
    dom.get? id = if slot.generation = id.generation then slot.node else none := by
  rw [get?, h]

theorem eq_of_index_of_generation (hi : id.index = other.index)
    (hg : id.generation = other.generation) : id = other := by
  cases id
  cases other
  cases hi
  cases hg
  rfl

/-- What a handle names after a slot was written. -/
theorem get?_set {i : Nat} (hi : i < dom.slots.size) (slot : Slot) (free : List Nat)
    (other : NodeId) :
    (Dom.mk (dom.slots.set! i slot) free).get? other =
      if other.index = i then
        if slot.generation = other.generation then slot.node else none
      else dom.get? other := by
  split
  · next h =>
    refine get?_eq ?_
    simp [h, Array.getElem?_setIfInBounds_self_of_lt hi]
  · next h =>
    rw [get?, get?]
    simp only [Array.set!_eq_setIfInBounds]
    rw [Array.getElem?_setIfInBounds_ne (fun e => h e.symm)]

theorem index_lt_of_get? (h : dom.get? id = some node) : id.index < dom.slots.size :=
  (Array.getElem?_eq_some_iff.1 (getElem?_of_get? h)).1

/-- A slot holds one live node. -/
theorem eq_of_index_of_isSome (h : (dom.get? id).isSome) (h' : (dom.get? other).isSome)
    (hi : id.index = other.index) : id = other := by
  obtain ⟨node, hn⟩ := Option.isSome_iff_exists.1 h
  obtain ⟨node', hn'⟩ := Option.isSome_iff_exists.1 h'
  have hs := getElem?_of_get? hn
  rw [hi, getElem?_of_get? hn'] at hs
  exact eq_of_index_of_generation hi (Slot.mk.inj (Option.some.inj hs)).1.symm

theorem get?_modify (dom : Dom) (id other : NodeId) (f : Node → Node) :
    (dom.modify id f).get? other = if other = id then (dom.get? id).map f else dom.get? other := by
  rw [modify]
  split
  · next slot hs =>
    split
    · next hg =>
      rw [get?_set (Array.getElem?_eq_some_iff.1 hs).1]
      by_cases hi : other.index = id.index
      · by_cases he : id.generation = other.generation
        · obtain rfl := eq_of_index_of_generation hi he.symm
          simp [hg, get?_eq hs]
        · have hne : other ≠ id := fun e => he (e ▸ rfl)
          rw [← hi] at hs
          simp [hi, hg, he, hne, get?_eq hs]
      · have hne : other ≠ id := fun e => hi (e ▸ rfl)
        rw [if_neg hi, if_neg hne]
    · next hg =>
      split
      · next h =>
        rw [h, get?_eq hs, if_neg hg]
        rfl
      · rfl
  · next hs =>
    split
    · next h =>
      subst h
      rw [get?, hs]
      rfl
    · rfl

theorem get?_clear (dom : Dom) (id other : NodeId) :
    (dom.clear id).get? other = if other = id then none else dom.get? other := by
  rw [clear]
  split
  · next node hn =>
    have hs := getElem?_of_get? hn
    rw [get?_set (index_lt_of_get? hn)]
    by_cases hi : other.index = id.index
    · rw [if_pos hi, ite_self]
      by_cases he : id.generation = other.generation
      · rw [if_pos (eq_of_index_of_generation hi he.symm)]
      · rw [← hi] at hs
        rw [get?_eq hs, if_neg he, ite_self]
    · have hne : other ≠ id := fun e => hi (e ▸ rfl)
      rw [if_neg hi, if_neg hne]
  · next hn =>
    split
    · next h => rw [h, hn]
    · rfl

theorem get?_empty (id : NodeId) : Dom.empty.get? id = none := rfl

/-! ## Free slots -/

/-- The list of free slots holds each vacant slot once and nothing else. -/
structure Sound (dom : Dom) : Prop where
  nodup : dom.free.Nodup
  mem_free_iff : ∀ i, i ∈ dom.free ↔ ∃ slot, dom.slots[i]? = some slot ∧ slot.node = none

theorem sound_empty : Dom.empty.Sound := ⟨List.nodup_nil, fun i => by simp [empty]⟩

theorem Sound.modify (h : dom.Sound) (id : NodeId) (f : Node → Node) : (dom.modify id f).Sound := by
  rw [Dom.modify]
  split
  · next slot hs =>
    split
    · refine ⟨h.nodup, fun i => ?_⟩
      rw [h.mem_free_iff]
      have hi := (Array.getElem?_eq_some_iff.1 hs).1
      by_cases he : i = id.index
      · subst he
        simp [hs, Array.getElem?_setIfInBounds_self_of_lt hi]
      · simp [Array.getElem?_setIfInBounds_ne (Ne.symm he)]
    · exact h
  · exact h

theorem Sound.clear (h : dom.Sound) (id : NodeId) : (dom.clear id).Sound := by
  rw [Dom.clear]
  split
  · next node hn =>
    have hs := getElem?_of_get? hn
    have hi := index_lt_of_get? hn
    have hfree : id.index ∉ dom.free := by
      rw [h.mem_free_iff]
      simp [hs]
    refine ⟨List.nodup_cons.2 ⟨hfree, h.nodup⟩, fun i => ?_⟩
    rw [List.mem_cons, h.mem_free_iff]
    by_cases he : i = id.index
    · subst he
      simp [Array.getElem?_setIfInBounds_self_of_lt hi]
    · simp [he, Array.getElem?_setIfInBounds_ne (Ne.symm he)]
  · exact h

theorem allocate_nil (hf : dom.free = []) (content : Content) :
    dom.allocate content =
      ({ dom with slots := dom.slots.push ⟨0, some ⟨content, none, []⟩⟩ },
        ⟨dom.slots.size, 0⟩) := by
  rw [allocate, hf]

/-- The slot that a new node is put into. -/
theorem Sound.allocate_cons (h : dom.Sound) {index : Nat} {rest : List Nat}
    (hf : dom.free = index :: rest) (content : Content) :
    ∃ slot, dom.slots[index]? = some slot ∧ slot.node = none ∧
      dom.allocate content =
        (⟨dom.slots.set! index { slot with node := some ⟨content, none, []⟩ }, rest⟩,
          ⟨index, slot.generation⟩) := by
  obtain ⟨slot, hs, hn⟩ := (h.mem_free_iff index).1 (hf ▸ List.mem_cons_self)
  refine ⟨slot, hs, hn, ?_⟩
  rw [allocate, hf]
  simp only [hs]

/-- Allocating takes a free slot or a new one, so that the free list stays one of empty slots. -/
theorem Sound.allocate (h : dom.Sound) (content : Content) : (dom.allocate content).1.Sound := by
  cases hf : dom.free with
  | nil =>
    rw [allocate_nil hf]
    refine ⟨h.nodup, fun i => ?_⟩
    rw [h.mem_free_iff]
    rcases Nat.lt_trichotomy i dom.slots.size with hi | rfl | hi
    · rw [Array.getElem?_push_lt hi, Array.getElem?_eq_getElem hi]
    · simp
    · rw [Array.getElem?_eq_none (Nat.le_of_lt hi), Array.getElem?_eq_none (by simp; omega)]
  | cons index rest =>
    obtain ⟨slot, hs, hn, ha⟩ := h.allocate_cons hf content
    have hi := (Array.getElem?_eq_some_iff.1 hs).1
    have hnodup := h.nodup
    rw [hf, List.nodup_cons] at hnodup
    rw [ha]
    refine ⟨hnodup.2, fun i => ?_⟩
    have hmem := h.mem_free_iff i
    rw [hf, List.mem_cons] at hmem
    by_cases he : i = index
    · subst he
      simp [Array.getElem?_setIfInBounds_self_of_lt hi, hnodup.1]
    · simp [Array.getElem?_setIfInBounds_ne (Ne.symm he), ← hmem, he]

/-- A new node has a handle that named nothing, and no other handle is touched. -/
theorem Sound.get?_allocate (h : dom.Sound) (content : Content) (other : NodeId) :
    (dom.allocate content).1.get? other =
      if other = (dom.allocate content).2 then some ⟨content, none, []⟩ else dom.get? other := by
  cases hf : dom.free with
  | nil =>
    rw [allocate_nil hf, get?, get?]
    rcases Nat.lt_trichotomy other.index dom.slots.size with hi | hi | hi
    · have hne : other ≠ ⟨dom.slots.size, 0⟩ := fun e => by simp [e] at hi
      rw [if_neg hne, Array.getElem?_push_lt hi, Array.getElem?_eq_getElem hi]
    · by_cases hg : other.generation = 0
      · rw [if_pos (eq_of_index_of_generation hi hg), hi, Array.getElem?_push_size]
        exact if_pos hg.symm
      · have hne : other ≠ ⟨dom.slots.size, 0⟩ := fun e => hg (e ▸ rfl)
        rw [if_neg hne, hi, Array.getElem?_push_size, Array.getElem?_eq_none (Nat.le_refl _)]
        exact if_neg (Ne.symm hg)
    · have hne : other ≠ ⟨dom.slots.size, 0⟩ := fun e => by simp [e] at hi
      rw [if_neg hne, Array.getElem?_eq_none (Nat.le_of_lt hi),
        Array.getElem?_eq_none (by simp; omega)]
  | cons index rest =>
    obtain ⟨slot, hs, hn, ha⟩ := h.allocate_cons hf content
    rw [ha, get?_set (Array.getElem?_eq_some_iff.1 hs).1]
    by_cases hi : other.index = index
    · by_cases hg : slot.generation = other.generation
      · rw [if_pos hi, if_pos hg, if_pos (eq_of_index_of_generation hi hg.symm)]
      · have hne : other ≠ ⟨index, slot.generation⟩ := fun e => hg (e ▸ rfl)
        rw [← hi] at hs
        rw [if_pos hi, if_neg hg, if_neg hne, get?_eq hs, if_neg hg]
    · have hne : other ≠ ⟨index, slot.generation⟩ := fun e => hi (e ▸ rfl)
      rw [if_neg hi, if_neg hne]

/-- A handle that is allocated stood for nothing before. -/
theorem Sound.get?_new (h : dom.Sound) (content : Content) :
    dom.get? (dom.allocate content).2 = none := by
  cases hf : dom.free with
  | nil =>
    rw [allocate_nil hf, get?, Array.getElem?_eq_none (Nat.le_refl _)]
  | cons index rest =>
    obtain ⟨slot, hs, hn, ha⟩ := h.allocate_cons hf content
    have hget : dom.get? ⟨index, slot.generation⟩ = _ := get?_eq hs
    rw [ha, hget, hn, ite_self]

/-! ## The number of nodes -/

/-- A slot counts as a node if it holds one. -/
theorem size_set {i : Nat} (h : dom.slots[i]? = some slot) (new : Slot) (free : List Nat) :
    (Dom.mk (dom.slots.set! i new) free).size + (if slot.node.isSome then 1 else 0) =
      dom.size + (if new.node.isSome then 1 else 0) := by
  obtain ⟨hi, rfl⟩ := Array.getElem?_eq_some_iff.1 h
  have pos (hn : dom.slots[i].node.isSome = true) :
      0 < dom.slots.countP fun slot => slot.node.isSome :=
    Array.countP_pos_iff.2 ⟨dom.slots[i], Array.getElem_mem hi, hn⟩
  simp only [size, Array.set!_eq_setIfInBounds, Array.setIfInBounds, hi, dite_true]
  rw [Array.countP_set]
  by_cases hn : dom.slots[i].node.isSome = true
  · have := pos hn
    simp only [hn, if_true]
    omega
  · simp [hn]

theorem size_modify (dom : Dom) (id : NodeId) (f : Node → Node) :
    (dom.modify id f).size = dom.size := by
  rw [modify]
  split
  · next slot hs =>
    split
    · have := size_set hs { slot with node := slot.node.map f } dom.free
      rw [Option.isSome_map] at this
      omega
    · rfl
  · rfl

theorem size_clear (h : dom.get? id = some node) : (dom.clear id).size + 1 = dom.size := by
  have := size_set (getElem?_of_get? h) ⟨id.generation + 1, none⟩ (id.index :: dom.free)
  rw [clear, h]
  simpa using this

theorem Sound.size_allocate (h : dom.Sound) (content : Content) :
    (dom.allocate content).1.size = dom.size + 1 := by
  cases hf : dom.free with
  | nil =>
    rw [allocate_nil hf]
    simp [size]
  | cons index rest =>
    obtain ⟨slot, hs, hn, ha⟩ := h.allocate_cons hf content
    have := size_set hs { slot with node := some ⟨content, none, []⟩ } rest
    rw [ha]
    simpa [hn] using this

end Dom

end LiveMarkup
