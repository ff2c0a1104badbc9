import LiveMarkup.Proofs.Json.Agreement
import LiveMarkup.Proofs.State.Resolving
import LiveMarkup.State.Ordered
import Mathlib.Data.String.Basic

/-!
# Slots of a state

A slot is a place under a key of an object or at an index of an array, given by the path to it
(`Value.updateAt`). What is put there, or taken away, is all that changes
(`Value.resolve?_updateAt`), and changes of slots of which none is at or below the other may be made
in either order (`Value.updateAt_comm`). Behind the last item of an array there is one more slot,
and an item put there moves the end; so two changes behind the end have an order.

Fields are compared by what is found under each key. That determines them if all objects are in
order (`Value.Ordered`).
-/

namespace LiveMarkup

/-! ## One slot of an object or an array -/

namespace Fields

variable {fields : Fields} {u u' : Option Value → Option Value} {key k l : String}

/-- The fields with what is under a key changed. -/
def alter (u : Option Value → Option Value) (fields : Fields) (key : String) : Fields :=
  match u (fields.find? key) with
  | some v => fields.insert key v
  | none => fields.erase key

namespace InOrder

theorem alter (h : fields.InOrder) (u : Option Value → Option Value) (key : String) :
    (fields.alter u key).InOrder := by
  rw [Fields.alter]
  split
  · exact h.insert key _
  · exact h.erase key

/-- Only what is found under the key of the slot is changed. -/
theorem find?_alter (h : fields.InOrder) (u : Option Value → Option Value) (key k : String) :
    (fields.alter u key).find? k = if key = k then u (fields.find? key) else fields.find? k := by
  rw [Fields.alter]
  split
  · next v hv => rw [find?_insert, hv]
  · next hnone => rw [h.find?_erase, hnone]

theorem alter_eq_self (h : fields.InOrder) (hu : u (fields.find? key) = fields.find? key) :
    fields.alter u key = fields := by
  refine (h.alter u key).ext h fun k => ?_
  rw [h.find?_alter]
  split
  · next hk => rw [hu, hk]
  · rfl

theorem alter_alter (h : fields.InOrder) :
    (fields.alter u key).alter u' key = fields.alter (fun old => u' (u old)) key := by
  refine ((h.alter u key).alter u' key).ext (h.alter _ key) fun k => ?_
  rw [(h.alter u key).find?_alter, h.find?_alter, h.find?_alter, h.find?_alter, if_pos rfl]
  by_cases hk : key = k
  · rw [if_pos hk, if_pos hk]
  · rw [if_neg hk, if_neg hk, if_neg hk]

theorem alter_comm (h : fields.InOrder) (hne : k ≠ l) :
    (fields.alter u k).alter u' l = (fields.alter u' l).alter u k := by
  refine ((h.alter u k).alter u' l).ext ((h.alter u' l).alter u k) fun key => ?_
  rw [(h.alter u k).find?_alter, h.find?_alter, h.find?_alter, (h.alter u' l).find?_alter,
    h.find?_alter, h.find?_alter, if_neg hne, if_neg hne.symm]
  by_cases hk : k = key
  · rw [if_neg fun hl => hne (hk.trans hl.symm), if_pos hk, if_pos hk]
  · rw [if_neg hk, if_neg hk]

end InOrder

end Fields

/-- The items with what is at an index, or right behind the last one, changed. An item can be put
in place of another one, but not taken away. -/
def alterItem (u : Option Value → Option Value) (items : List Value) (i : Nat) : List Value :=
  match items[i]? with
  | some old => items.set i ((u (some old)).getD old)
  | none => if i = items.length then items ++ (u none).toList else items

section

variable {items : List Value} {u u' : Option Value → Option Value} {i j : Nat} {old : Value}

theorem alterItem_of_some (h : items[i]? = some old) :
    alterItem u items i = items.set i ((u (some old)).getD old) := by
  rw [alterItem, h]

theorem alterItem_of_length_le (h : items.length ≤ i) :
    alterItem u items i = if i = items.length then items ++ (u none).toList else items := by
  rw [alterItem, List.getElem?_eq_none h]

theorem alterItem_eq_self (h : items.length ≤ i) (hu : u none = none) :
    alterItem u items i = items := by
  rw [alterItem_of_length_le h, hu]
  simp

theorem getElem?_alterItem_of_ne (hne : i ≠ j) : (alterItem u items i)[j]? = items[j]? := by
  rcases Nat.lt_or_ge i items.length with hi | hi
  · rw [alterItem_of_some (List.getElem?_eq_getElem hi), List.getElem?_set_ne hne]
  · rw [alterItem_of_length_le hi]
    split
    · next he =>
      rcases Nat.lt_or_ge j items.length with hj | hj
      · rw [List.getElem?_append_left hj]
      · have hshort : (items ++ (u none).toList).length ≤ j := by
          rw [List.length_append]
          have := Option.length_toList_le (o := u none)
          omega
        rw [List.getElem?_eq_none hshort, List.getElem?_eq_none hj]
    · rfl

theorem getElem?_alterItem_self (hu : u none = none) :
    (alterItem u items i)[i]? = items[i]?.map fun old => (u (some old)).getD old := by
  rcases Nat.lt_or_ge i items.length with hi | hi
  · have hold := List.getElem?_eq_getElem hi
    rw [alterItem_of_some hold, List.getElem?_set_self hi, hold, Option.map_some]
  · rw [alterItem_eq_self hi hu, List.getElem?_eq_none hi, Option.map_none]

/-- What is behind the end stays there, unless it is the slot that is filled. -/
theorem length_alterItem_le (hne : j ≠ i) (hi : items.length ≤ i) :
    (alterItem u items j).length ≤ i := by
  have hnone : (alterItem u items j)[i]? = none := by
    rw [getElem?_alterItem_of_ne hne, List.getElem?_eq_none hi]
  exact List.getElem?_eq_none_iff.1 hnone

/-- An item can be changed before or after another one, and before or after an item is put behind
the last one. -/
theorem alterItem_comm_of_lt (hne : i ≠ j) (hi : i < items.length) :
    alterItem u' (alterItem u items i) j = alterItem u (alterItem u' items j) i := by
  have hold := List.getElem?_eq_getElem hi
  have hold' : (alterItem u' items j)[i]? = some items[i] := by
    rw [getElem?_alterItem_of_ne hne.symm, hold]
  rw [alterItem_of_some hold, alterItem_of_some hold']
  rcases Nat.lt_or_ge j items.length with hj | hj
  · have hother := List.getElem?_eq_getElem hj
    rw [alterItem_of_some hother, alterItem_of_some ((List.getElem?_set_ne hne).trans hother),
      List.set_comm _ _ hne]
  · rw [alterItem_of_length_le hj, alterItem_of_length_le (by rwa [List.length_set]),
      List.length_set]
    split
    · rw [List.set_append_left _ _ hi]
    · rfl

/-- Items at different places may be changed in either order, unless both changes lie behind the end
and add something. -/
theorem alterItem_comm (hne : i ≠ j)
    (h : i < items.length ∨ j < items.length ∨ u none = none ∨ u' none = none) :
    alterItem u' (alterItem u items i) j = alterItem u (alterItem u' items j) i := by
  rcases Nat.lt_or_ge i items.length with hi | hi
  · exact alterItem_comm_of_lt hne hi
  rcases Nat.lt_or_ge j items.length with hj | hj
  · exact (alterItem_comm_of_lt hne.symm hj).symm
  have hstill := length_alterItem_le (u := u) hne hj
  have hstill' := length_alterItem_le (u := u') hne.symm hi
  rcases h with h | h | hu | hu
  · omega
  · omega
  · rw [alterItem_eq_self hi hu, alterItem_eq_self hstill' hu]
  · rw [alterItem_eq_self hj hu, alterItem_eq_self hstill hu]

end

/-! ## Values -/

namespace Value

variable {v w v' : Value} {s t : Segment} {u u' : Option Value → Option Value}
  {path q slot slot' : Path}

/-- The values along which a path leads, one step after the other. -/
def navigate? (v : Value) (path : Path) : Option Value := path.foldlM step? v

theorem resolve?_eq_navigate? (v : Value) (path : Path) : v.resolve? path = v.navigate? path := by
  induction path generalizing v with
  | nil => rfl
  | cons s rest ih =>
    rw [resolve?, navigate?, List.foldlM_cons]
    cases v.step? s with
    | none => rfl
    | some w => exact ih w

theorem resolve?_concat (v : Value) (path : Path) (s : Segment) :
    v.resolve? (path ++ [s]) = (v.resolve? path).bind fun w => w.step? s := by
  rw [resolve?_append]
  refine congrArg _ (funext fun w => ?_)
  rw [resolve?_cons]
  cases w.step? s <;> rfl

/-! ### One step -/

/-- The value with what is at one step changed. -/
def alter (u : Option Value → Option Value) : Value → Segment → Value
  | object fields, .key k => object (Fields.alter u fields k)
  | array items, .index i => array (alterItem u items i)
  | v, _ => v

/-- Only what is there is changed. -/
def Maps (u : Option Value → Option Value) : Prop := ∀ old, (u old).isSome = old.isSome

theorem maps_map (f : Value → Value) : Maps (Option.map f) := fun _ => Option.isSome_map

theorem Maps.none_eq (hu : Maps u) : u none = none := by
  rw [← Option.not_isSome_iff_eq_none, hu]
  exact Bool.false_ne_true

theorem Maps.some_eq (hu : Maps u) (v : Value) : u (some v) = some ((u (some v)).getD v) := by
  obtain ⟨w, hw⟩ := Option.isSome_iff_exists.1 (hu (some v))
  rw [hw, Option.getD_some]

theorem step?_alter_of_ne (h : v.Ordered) (hne : s ≠ t) : (v.alter u s).step? t = v.step? t := by
  cases v with
  | object fields =>
    cases s with
    | key k =>
      cases t with
      | key l =>
        change Fields.find? (Fields.alter u fields k) l = Fields.find? fields l
        rw [h.inOrder.find?_alter, if_neg fun he => hne (congrArg Segment.key he)]
      | index j => rfl
    | index i => rfl
  | array items =>
    cases s with
    | key k => rfl
    | index i =>
      cases t with
      | key l => rfl
      | index j => exact getElem?_alterItem_of_ne fun he => hne (congrArg Segment.index he)
  | _ => rfl

/-- What maps values to values changes what is at the step, if anything is. -/
theorem step?_alter_self (h : v.Ordered) (hu : Maps u) : (v.alter u s).step? s = u (v.step? s) := by
  cases v with
  | object fields =>
    cases s with
    | key k =>
      change Fields.find? (Fields.alter u fields k) k = u (Fields.find? fields k)
      rw [h.inOrder.find?_alter, if_pos rfl]
    | index i => exact hu.none_eq.symm
  | array items =>
    cases s with
    | key k => exact hu.none_eq.symm
    | index i =>
      change (alterItem u items i)[i]? = u items[i]?
      rw [getElem?_alterItem_self hu.none_eq]
      cases items[i]? with
      | none => exact hu.none_eq.symm
      | some old => exact (hu.some_eq old).symm
  | _ => cases s <;> exact hu.none_eq.symm

theorem alter_congr (h : u (v.step? s) = u' (v.step? s)) : v.alter u s = v.alter u' s := by
  cases v with
  | object fields =>
    cases s with
    | key k =>
      have hk : u (Fields.find? fields k) = u' (Fields.find? fields k) := h
      rw [alter, alter, Fields.alter, Fields.alter, hk]
    | index i => rfl
  | array items =>
    cases s with
    | key k => rfl
    | index i =>
      have hi : u items[i]? = u' items[i]? := h
      rw [alter, alter, alterItem, alterItem]
      split
      · next old hold => rw [← hold, hi]
      · next hnone => rw [← hnone, hi]
  | _ => rfl

theorem alter_alter (h : v.Ordered) (hu : Maps u) (hu' : Maps u') :
    (v.alter u s).alter u' s = v.alter (fun old => u' (u old)) s := by
  cases v with
  | object fields =>
    cases s with
    | key k => exact congrArg object h.inOrder.alter_alter
    | index i => rfl
  | array items =>
    cases s with
    | key k => rfl
    | index i =>
      refine congrArg array ?_
      rcases Nat.lt_or_ge i items.length with hi | hi
      · have hold := List.getElem?_eq_getElem hi
        have hboth := (congrArg u' (hu.some_eq items[i])).trans (hu'.some_eq _)
        rw [alterItem_of_some hold, alterItem_of_some (List.getElem?_set_self hi),
          alterItem_of_some hold, List.set_set, hboth, Option.getD_some]
      · rw [alterItem_eq_self hi hu.none_eq, alterItem_eq_self hi hu'.none_eq,
          alterItem_eq_self hi (by rw [hu.none_eq, hu'.none_eq])]
  | _ => rfl

/-- Changes at different steps may be made in either order, with the same exception. -/
theorem alter_comm (h : v.Ordered) (hne : s ≠ t)
    (hend : ∀ items i j, v = .array items → s = .index i → t = .index j →
      i < items.length ∨ j < items.length ∨ u none = none ∨ u' none = none) :
    (v.alter u s).alter u' t = (v.alter u' t).alter u s := by
  cases v with
  | object fields =>
    cases s with
    | key k =>
      cases t with
      | key l =>
        exact congrArg object (h.inOrder.alter_comm fun he => hne (congrArg Segment.key he))
      | index j => rfl
    | index i => cases t <;> rfl
  | array items =>
    cases s with
    | key k => cases t <;> rfl
    | index i =>
      cases t with
      | key l => rfl
      | index j =>
        exact congrArg array (alterItem_comm (fun he => hne (congrArg Segment.index he))
          (hend items i j rfl rfl rfl))
  | _ => cases s <;> cases t <;> rfl

theorem alter_eq_self (hv : v.step? s = none) (hu : u none = none) : v.alter u s = v := by
  cases v with
  | object fields =>
    cases s with
    | key k =>
      have hk : Fields.find? fields k = none := hv
      rw [alter, Fields.alter, hk, hu]
      exact congrArg object (Fields.erase_eq_self hk)
    | index i => rfl
  | array items =>
    cases s with
    | key k => rfl
    | index i => exact congrArg array (alterItem_eq_self (List.getElem?_eq_none_iff.1 hv) hu)
  | _ => rfl

theorem alter_eq_replaceStep (hv : v.step? s = some w) (hu : u (some w) = some v') :
    v.alter u s = v.replaceStep s v' := by
  cases v with
  | object fields =>
    cases s with
    | key k =>
      have hk : Fields.find? fields k = some w := hv
      have hin : Fields.contains fields k = true := by rw [Fields.contains, hk, Option.isSome_some]
      rw [alter, Fields.alter, hk, hu, replaceStep, if_pos hin]
    | index i => cases hv
  | array items =>
    cases s with
    | key k => cases hv
    | index i => rw [alter, alterItem_of_some hv, hu, Option.getD_some, replaceStep]
  | _ => cases s <;> cases hv

/-! ### Paths -/

/-- What is at the end of a path changed; it may be that nothing is there, or that nothing is left
there. -/
def updateAt (u : Option Value → Option Value) : Path → Option Value → Option Value
  | [] => u
  | s :: rest => Option.map fun v => v.alter (updateAt u rest) s

/-- Two slots lie behind the last item of one array. -/
def BothPastEnd (v : Value) (slot slot' : Path) : Prop :=
  ∃ path items i j, v.arrayAt? path = some items ∧
    slot = path ++ [.index i] ∧ slot' = path ++ [.index j] ∧ items.length ≤ i ∧ items.length ≤ j

theorem maps_updateAt (hslot : slot ≠ []) : Maps (updateAt u slot) := by
  cases slot with
  | nil => exact absurd rfl hslot
  | cons s rest => exact maps_map _

theorem updateAt_append (u : Option Value → Option Value) (path rest : Path) :
    updateAt u (path ++ rest) = updateAt (updateAt u rest) path := by
  induction path with
  | nil => rfl
  | cons s path ih => rw [List.cons_append, updateAt, updateAt, ih]

/-- A value at a path that neither goes through a slot nor leads to what the slot is in stays. -/
theorem resolve?_updateAt (hv : v.Ordered) (h : ¬ slot <+: q) (h' : ¬ q <+: slot)
    (hnew : updateAt u slot (some v) = some v') : v'.resolve? q = v.resolve? q := by
  induction slot generalizing v v' q with
  | nil => exact absurd List.nil_prefix h
  | cons s rest ih =>
    cases q with
    | nil => exact absurd List.nil_prefix h'
    | cons t q =>
      obtain rfl := Option.some.inj hnew
      rw [resolve?_cons, resolve?_cons]
      by_cases hst : s = t
      swap
      · rw [step?_alter_of_ne hv hst]
      subst hst
      rw [List.cons_prefix_cons, and_iff_right rfl] at h h'
      have hrest : rest ≠ [] := fun he => h (he ▸ List.nil_prefix)
      rw [step?_alter_self hv (maps_updateAt hrest)]
      cases hw : v.step? s with
      | none => rw [(maps_updateAt hrest).none_eq]
      | some w =>
        rw [(maps_updateAt hrest).some_eq w]
        exact ih (hv.of_step? hw) h h' ((maps_updateAt hrest).some_eq w)

/-- Slots of which none is at or below the other can be changed in either order, unless both lie
behind the end of one array. -/
theorem updateAt_comm (hv : v.Ordered) (h : ¬ slot <+: slot') (h' : ¬ slot' <+: slot)
    (hend : ¬ v.BothPastEnd slot slot') :
    updateAt u' slot' (updateAt u slot (some v)) =
      updateAt u slot (updateAt u' slot' (some v)) := by
  induction slot generalizing v slot' with
  | nil => exact absurd List.nil_prefix h
  | cons s rest ih =>
    cases slot' with
    | nil => exact absurd List.nil_prefix h'
    | cons t rest' =>
      refine congrArg some ?_
      by_cases hst : s = t
      · subst hst
        rw [List.cons_prefix_cons, and_iff_right rfl] at h h'
        have hrest : Maps (updateAt u rest) := maps_updateAt fun he => h (he ▸ List.nil_prefix)
        have hrest' : Maps (updateAt u' rest') :=
          maps_updateAt fun he => h' (he ▸ List.nil_prefix)
        change (v.alter (updateAt u rest) s).alter (updateAt u' rest') s =
          (v.alter (updateAt u' rest') s).alter (updateAt u rest) s
        rw [alter_alter hv hrest hrest', alter_alter hv hrest' hrest]
        refine alter_congr ?_
        cases hw : v.step? s with
        | none => rw [hrest.none_eq, hrest'.none_eq, hrest.none_eq]
        | some w =>
          refine ih (hv.of_step? hw) h h' ?_
          rintro ⟨path, items, i, j, hitems, rfl, rfl, hends⟩
          refine hend ⟨s :: path, items, i, j, ?_, rfl, rfl, hends⟩
          rw [arrayAt?, resolve?_cons, hw]
          exact hitems
      · refine alter_comm hv hst fun items i j he hs ht => ?_
        -- what is further down than the slot itself is there or not, whatever is changed below
        by_cases hrest : rest = []
        swap
        · exact .inr (.inr (.inl (maps_updateAt hrest).none_eq))
        by_cases hrest' : rest' = []
        swap
        · exact .inr (.inr (.inr (maps_updateAt hrest').none_eq))
        subst he hs ht hrest hrest'
        by_contra hpast
        rw [not_or, not_or, not_lt, not_lt] at hpast
        exact hend ⟨[], items, i, j, rfl, rfl, rfl, hpast.1, hpast.2.1⟩

/-! ### Values put at the end of a path -/

theorem replaceStep_self (hv : v.Ordered) (hw : v.step? s = some w) : v.replaceStep s w = v := by
  cases v with
  | object fields =>
    cases s with
    | key k =>
      have hk : Fields.find? fields k = some w := hw
      rw [replaceStep]
      split
      · refine congrArg object ((hv.inOrder.insert k w).ext hv.inOrder fun l => ?_)
        rw [Fields.find?_insert]
        split
        · next he => rw [← he, hk]
        · rfl
      · rfl
    | index i => rfl
  | array items =>
    cases s with
    | key k => rfl
    | index i =>
      obtain ⟨hi, rfl⟩ := List.getElem?_eq_some_iff.1 hw
      exact congrArg array (List.set_getElem_self hi)
  | _ => rfl

/-- To put in place what is there already changes nothing. -/
theorem replaceAt_self (hv : v.Ordered) (hw : v.resolve? path = some w) :
    v.replaceAt path w = v := by
  induction path generalizing v with
  | nil => exact (Option.some.inj hw).symm
  | cons s rest ih =>
    rw [resolve?_cons] at hw
    obtain ⟨x, hx, hw⟩ := Option.bind_eq_some_iff.1 hw
    rw [replaceAt, hx]
    simp only
    rw [ih (hv.of_step? hx) hw, replaceStep_self hv hx]

theorem updateAt_of_resolve?_eq_none (hv : v.Ordered) (hu : Maps u)
    (hnone : v.resolve? path = none) : updateAt u path (some v) = some v := by
  induction path generalizing v with
  | nil => cases hnone
  | cons s rest ih =>
    have hmaps : Maps (updateAt u rest) := by
      cases rest with
      | nil => exact hu
      | cons t rest => exact maps_map _
    rw [resolve?_cons] at hnone
    refine congrArg some ?_
    cases hw : v.step? s with
    | none => exact alter_eq_self hw hmaps.none_eq
    | some w =>
      rw [hw] at hnone
      exact (alter_eq_replaceStep hw (ih (hv.of_step? hw) hnone)).trans (replaceStep_self hv hw)

/-- To change what is at the end of a path is to put the changed value there. -/
theorem updateAt_of_resolve? (hu : Maps u) (hv : v.resolve? path = some w) :
    updateAt u path (some v) = some (v.replaceAt path ((u (some w)).getD w)) := by
  induction path generalizing v with
  | nil =>
    obtain rfl := Option.some.inj hv
    exact hu.some_eq v
  | cons s rest ih =>
    rw [resolve?_cons] at hv
    obtain ⟨x, hx, hv⟩ := Option.bind_eq_some_iff.1 hv
    rw [replaceAt, hx]
    exact congrArg some (alter_eq_replaceStep hx (ih hv))

end Value

end LiveMarkup
