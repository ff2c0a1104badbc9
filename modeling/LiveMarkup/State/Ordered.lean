import LiveMarkup.Json.Fields
import LiveMarkup.State.Path

/-!
# Values in order

A value is in order if all objects in it have the keys of their fields in order (`Value.Ordered`).
What is written into such a value, taken away from it or merged into it leaves it in order. So the
values of stores carry their order with them (`OrderedValue`), and so do the states that are merged
into them (`State`).

What comes from outside is put in order first (`Value.sorted`). Where it is in order already, it
stays as it is (`Value.Ordered.sorted_eq`).
-/

namespace LiveMarkup

namespace Value

variable {v w new : Value} {s : Segment} {path : Path} {fields entries : Fields}
  {items : List Value} {key : String}

theorem resolve?_cons (v : Value) (s : Segment) (path : Path) :
    v.resolve? (s :: path) = (v.step? s).bind fun w => w.resolve? path := by
  rw [resolve?]
  cases v.step? s <;> rfl

theorem resolve?_append (v : Value) (path rest : Path) :
    v.resolve? (path ++ rest) = (v.resolve? path).bind fun w => w.resolve? rest := by
  induction path generalizing v with
  | nil => rfl
  | cons s path ih =>
    rw [List.cons_append, resolve?_cons, resolve?_cons, Option.bind_assoc]
    exact congrArg _ (funext ih)

/-! ## Order -/

/-- All objects in a value are in order. -/
def Ordered (v : Value) : Prop := ∀ path fields, v.objectAt? path = some fields → fields.InOrder

/-- A value is in order if it is no object out of order, and what is at each step from it is in
order. -/
theorem ordered_iff : v.Ordered ↔
    (∀ fields, v = .object fields → Fields.InOrder fields) ∧
      ∀ s w, v.step? s = some w → w.Ordered := by
  constructor
  · refine fun h => ⟨?_, fun s w hw path fields hfields => h (s :: path) fields ?_⟩
    · rintro fields rfl
      exact h [] fields rfl
    · rw [objectAt?, resolve?_cons, hw, Option.bind_some]
      exact hfields
  · rintro ⟨hself, hsteps⟩ path fields hfields
    cases path with
    | nil =>
      cases v with
      | object fields' =>
        obtain rfl := Option.some.inj hfields
        exact hself _ rfl
      | _ => cases hfields
    | cons s rest =>
      rw [objectAt?, resolve?_cons, Option.bind_assoc] at hfields
      obtain ⟨w, hw, hfields⟩ := Option.bind_eq_some_iff.1 hfields
      exact hsteps s w hw rest fields hfields

theorem ordered_of_not_isNested (h : v.isNested = false) : v.Ordered := by
  refine ordered_iff.2 ⟨?_, fun s w hw => ?_⟩
  · rintro _ rfl
    cases h
  · cases v with
    | object fields => cases h
    | array items => cases h
    | _ => cases s <;> cases hw

/-- An object is in order if its keys are and all its values are. -/
theorem ordered_object (h : fields.InOrder) (hall : ∀ entry ∈ fields, entry.2.Ordered) :
    (object fields).Ordered := by
  refine ordered_iff.2 ⟨?_, fun s w hw => ?_⟩
  · rintro _ ⟨⟩
    exact h
  · cases s with
    | key k => exact hall (k, w) (Fields.mem_of_find? hw)
    | index i => cases hw

theorem ordered_array (hall : ∀ v ∈ items, v.Ordered) : (array items).Ordered := by
  refine ordered_iff.2 ⟨nofun, fun s w hw => ?_⟩
  cases s with
  | key k => cases hw
  | index i => exact hall w (List.mem_of_getElem? hw)

namespace Ordered

theorem of_step? (h : v.Ordered) (hw : v.step? s = some w) : w.Ordered :=
  (ordered_iff.1 h).2 s w hw

theorem resolve? (h : v.Ordered) (hw : v.resolve? path = some w) : w.Ordered :=
  fun rest fields hfields => h (path ++ rest) fields (by
    rw [objectAt?, resolve?_append, hw]
    exact hfields)

theorem inOrder (h : (object fields).Ordered) : fields.InOrder :=
  (ordered_iff.1 h).1 fields rfl

theorem of_mem_items (h : (array items).Ordered) (hv : v ∈ items) : v.Ordered := by
  obtain ⟨i, hi⟩ := List.mem_iff_getElem?.1 hv
  exact h.of_step? (s := .index i) hi

/-- In an object in order, each field is found under its key, so its value is in order as well. -/
theorem of_mem_fields (h : (object fields).Ordered) {entry : String × Value}
    (hentry : entry ∈ fields) : entry.2.Ordered :=
  h.of_step? (s := .key entry.1) (h.inOrder.find?_of_mem hentry)

theorem objectAt? (h : v.Ordered) (hfields : v.objectAt? path = some fields) :
    (object fields).Ordered := by
  obtain ⟨w, hw, hfields⟩ := Option.bind_eq_some_iff.1 hfields
  cases w with
  | object fields' =>
    obtain rfl := Option.some.inj hfields
    exact h.resolve? hw
  | _ => cases hfields

theorem arrayAt? (h : v.Ordered) (hitems : v.arrayAt? path = some items) :
    (array items).Ordered := by
  obtain ⟨w, hw, hitems⟩ := Option.bind_eq_some_iff.1 hitems
  cases w with
  | array items' =>
    obtain rfl := Option.some.inj hitems
    exact h.resolve? hw
  | _ => cases hitems

/-! ### What is written -/

/-- Into an object in order, a value in order may be written. -/
theorem insert (h : (object fields).Ordered) (key : String) (hv : v.Ordered) :
    (object (fields.insert key v)).Ordered := by
  refine ordered_iff.2 ⟨?_, fun s w hw => ?_⟩
  · rintro _ ⟨⟩
    exact h.inOrder.insert key v
  · cases s with
    | key k =>
      change (fields.insert key v).find? k = some w at hw
      rw [Fields.find?_insert] at hw
      split at hw
      · exact Option.some.inj hw ▸ hv
      · exact h.of_step? (s := .key k) hw
    | index i => cases hw

theorem erase (h : (object fields).Ordered) (key : String) :
    (object (fields.erase key)).Ordered :=
  ordered_object (h.inOrder.erase key) fun _ hentry =>
    h.of_mem_fields ((Fields.erase_sublist fields key).subset hentry)

/-- Entries may be merged into an object in any order, if their values are in order. -/
theorem merge (h : (object fields).Ordered) (hall : ∀ entry ∈ entries, entry.2.Ordered) :
    (object (fields.merge entries)).Ordered := by
  induction entries generalizing fields with
  | nil => exact h
  | cons entry rest ih =>
    rw [List.forall_mem_cons] at hall
    exact ih (h.insert entry.1 hall.1) hall.2

theorem set (h : (array items).Ordered) (i : Nat) (hv : v.Ordered) :
    (array (items.set i v)).Ordered := by
  refine ordered_array fun w hw => ?_
  rcases List.mem_or_eq_of_mem_set hw with hw | rfl
  · exact h.of_mem_items hw
  · exact hv

theorem concat (h : (array items).Ordered) (hv : v.Ordered) : (array (items ++ [v])).Ordered := by
  refine ordered_array fun w hw => ?_
  rcases List.mem_append.1 hw with hw | hw
  · exact h.of_mem_items hw
  · exact List.mem_singleton.1 hw ▸ hv

theorem replaceStep (h : v.Ordered) (s : Segment) (hnew : new.Ordered) :
    (v.replaceStep s new).Ordered := by
  cases v with
  | object fields =>
    cases s with
    | key k =>
      rw [Value.replaceStep]
      split
      · exact h.insert k hnew
      · exact h
    | index i => exact h
  | array items =>
    cases s with
    | key k => exact h
    | index i => exact h.set i hnew
  | _ => exact h

/-- What is put at the end of a path is the only part that may have to be looked at. -/
theorem replaceAt (h : v.Ordered) (path : Path) (hnew : new.Ordered) :
    (v.replaceAt path new).Ordered := by
  induction path generalizing v with
  | nil => exact hnew
  | cons s rest ih =>
    rw [Value.replaceAt]
    split
    · next w hw => exact h.replaceStep s (ih (h.of_step? hw))
    · exact h

/-- Writes leave values in order. So do they at indexes, and when keys are taken away. -/
theorem put? (h : v.Ordered) (hnew : new.Ordered) (hput : v.put? path key new = some w) :
    w.Ordered := by
  rw [Value.put?] at hput
  split at hput
  · cases hput
  next fields hfields =>
  split at hput
  · cases hput
  · exact Option.some.inj hput ▸ h.replaceAt path ((h.objectAt? hfields).insert key hnew)

theorem putAt? {index : Nat} (h : v.Ordered) (hnew : new.Ordered)
    (hput : v.putAt? path index new = some w) : w.Ordered := by
  rw [Value.putAt?] at hput
  split at hput
  · cases hput
  next items hitems =>
  split at hput
  · exact Option.some.inj hput ▸ h.replaceAt path ((h.arrayAt? hitems).concat hnew)
  · split at hput
    · cases hput
    · split at hput
      · cases hput
      · exact Option.some.inj hput ▸ h.replaceAt path ((h.arrayAt? hitems).set index hnew)

theorem take? {old : Value} (h : v.Ordered) (htake : v.take? path key = some (old, w)) :
    w.Ordered := by
  rw [Value.take?] at htake
  split at htake
  · cases htake
  next fields hfields =>
  obtain ⟨was, -, hmade⟩ := Option.map_eq_some_iff.1 htake
  cases hmade
  exact h.replaceAt path ((h.objectAt? hfields).erase key)

end Ordered

/-! ## Putting a value in order -/

mutual

/-- The value with the fields of all objects in it put in order. Of two fields with one key the
later one stays. -/
def sorted : Value → Value
  | array items => array (sortedItems items)
  | object fields => object (Fields.ofList (sortedFields fields))
  | null => null
  | bool b => bool b
  | number n => number n
  | string s => string s

/-- `Value.sorted` for the items of an array. -/
def sortedItems : List Value → List Value
  | [] => []
  | v :: rest => sorted v :: sortedItems rest

/-- `Value.sorted` for the values of fields, which stay where they are. -/
def sortedFields : List (String × Value) → List (String × Value)
  | [] => []
  | (k, v) :: rest => (k, sorted v) :: sortedFields rest

end

mutual

/-- Whatever a value is like, it is in order once it is sorted. -/
theorem ordered_sorted : ∀ v : Value, v.sorted.Ordered
  | array items => ordered_array (forall_ordered_sortedItems items)
  | object fields =>
    Ordered.merge (ordered_object Fields.inOrder_nil nofun) (forall_ordered_sortedFields fields)
  | null | bool _ | number _ | string _ => ordered_of_not_isNested rfl

theorem forall_ordered_sortedItems : ∀ items : List Value, ∀ v ∈ sortedItems items, v.Ordered
  | [] => nofun
  | v :: rest => List.forall_mem_cons.2 ⟨ordered_sorted v, forall_ordered_sortedItems rest⟩

theorem forall_ordered_sortedFields :
    ∀ fields : List (String × Value), ∀ entry ∈ sortedFields fields, entry.2.Ordered
  | [] => nofun
  | (_, v) :: rest => List.forall_mem_cons.2 ⟨ordered_sorted v, forall_ordered_sortedFields rest⟩

end

mutual

/-- What is in order stays as it is. -/
theorem Ordered.sorted_eq : ∀ {v : Value}, v.Ordered → v.sorted = v
  | array _, h => congrArg array (sortedItems_eq fun _ => h.of_mem_items)
  | object _, h => by
    rw [sorted, sortedFields_eq fun _ => h.of_mem_fields, h.inOrder.ofList_eq]
  | null, _ | bool _, _ | number _, _ | string _, _ => rfl

theorem sortedItems_eq : ∀ {items : List Value}, (∀ v ∈ items, v.Ordered) →
    sortedItems items = items
  | [], _ => rfl
  | v :: rest, h => by
    rw [List.forall_mem_cons] at h
    rw [sortedItems, h.1.sorted_eq, sortedItems_eq h.2]

theorem sortedFields_eq : ∀ {fields : List (String × Value)}, (∀ entry ∈ fields, entry.2.Ordered) →
    sortedFields fields = fields
  | [], _ => rfl
  | (k, v) :: rest, h => by
    rw [List.forall_mem_cons] at h
    rw [sortedFields, h.1.sorted_eq, sortedFields_eq h.2]

end

end Value

/-! ## Values that carry their order -/

/-- A value in order. -/
abbrev OrderedValue := { v : Value // v.Ordered }

/-- The fields of an object in order: what a store has as its state, or what is merged into it. -/
abbrev State := { fields : Fields // (Value.object fields).Ordered }

namespace OrderedValue

variable {root new : OrderedValue} {path : Path} {key : String} {index : Nat}

/-- Null is in order. -/
def null : OrderedValue := ⟨.null, Value.ordered_of_not_isNested rfl⟩

/-- A value put in order. -/
def ofValue (v : Value) : OrderedValue := ⟨v.sorted, v.ordered_sorted⟩

instance : Coe Value OrderedValue := ⟨ofValue⟩

/-- What is in order already is taken as it is. -/
theorem ofValue_val (v : OrderedValue) : ofValue v.1 = v := Subtype.ext v.2.sorted_eq

/-- `Value.put?` for values in order. -/
def put? (root : OrderedValue) (path : Path) (key : String) (new : OrderedValue) :
    Option OrderedValue :=
  (root.1.put? path key new.1).pmap Subtype.mk fun _ h => root.2.put? new.2 h

/-- `Value.putAt?` for values in order. -/
def putAt? (root : OrderedValue) (path : Path) (index : Nat) (new : OrderedValue) :
    Option OrderedValue :=
  (root.1.putAt? path index new.1).pmap Subtype.mk fun _ h => root.2.putAt? new.2 h

/-- `Value.take?` for values in order. -/
def take? (root : OrderedValue) (path : Path) (key : String) : Option (Value × OrderedValue) :=
  (root.1.take? path key).pmap (fun taken h => (taken.1, ⟨taken.2, h⟩)) fun _ h => root.2.take? h

/-- Order is only carried along: the values that are written are those of `Value.put?`. -/
theorem map_val_put? : (root.put? path key new).map Subtype.val = root.1.put? path key new.1 := by
  rw [put?, Option.map_pmap]
  exact (Option.pmap_eq_map _ id _ _).trans (Option.map_id_apply)

theorem map_val_putAt? :
    (root.putAt? path index new).map Subtype.val = root.1.putAt? path index new.1 := by
  rw [putAt?, Option.map_pmap]
  exact (Option.pmap_eq_map _ id _ _).trans (Option.map_id_apply)

theorem map_val_take? :
    (root.take? path key).map (Prod.map id Subtype.val) = root.1.take? path key := by
  rw [take?, Option.map_pmap]
  exact (Option.pmap_eq_map _ id _ _).trans (Option.map_id_apply)

theorem map_val_snd_take? : ((root.take? path key).map Prod.snd).map Subtype.val =
    (root.1.take? path key).map Prod.snd := by
  rw [← map_val_take?, Option.map_map, Option.map_map]
  rfl

end OrderedValue

namespace State

/-- Fields put in order. -/
def ofFields (fields : Fields) : State :=
  ⟨Fields.ofList (Value.sortedFields fields), (Value.object fields).ordered_sorted⟩

instance : Coe Fields State := ⟨ofFields⟩

/-- Fields in order already are taken as they are. -/
theorem ofFields_val (s : State) : ofFields s.1 = s :=
  Subtype.ext (Value.object.inj s.2.sorted_eq)

/-- The object with these fields. -/
def root (s : State) : OrderedValue := ⟨.object s.1, s.2⟩

/-- A value in order that is an object is the root of a state. -/
theorem exists_root_eq {v : OrderedValue} {fields : Fields} (h : v.1 = .object fields) :
    ∃ s : State, s.root = v ∧ s.1 = fields :=
  ⟨⟨fields, h ▸ v.2⟩, Subtype.ext h.symm, rfl⟩

/-- The fields, each with its value in order. -/
def entries (s : State) : List (String × OrderedValue) :=
  s.1.attach.map fun entry => (entry.1.1, ⟨entry.1.2, s.2.of_mem_fields entry.2⟩)

/-- The state with all entries of another one put in. -/
def merge (s other : State) : State :=
  ⟨s.1.merge other.1, s.2.merge fun _ => other.2.of_mem_fields⟩

/-- Entries with their order are the fields of the state, one by one. -/
theorem map_entries (s : State) : s.entries.map (fun entry => (entry.1, entry.2.1)) = s.1 := by
  rw [entries, List.map_map]
  exact List.attach_map_subtype_val s.1

theorem mem_of_mem_entries {s : State} {entry : String × OrderedValue} (h : entry ∈ s.entries) :
    (entry.1, entry.2.1) ∈ s.1 :=
  s.map_entries ▸ List.mem_map_of_mem h

/-- What is said of the fields of states is said of their entries. -/
theorem filter_entries {s t : State} {p : String → Bool}
    (h : s.1.filter (fun entry => p entry.1) = t.1) :
    s.entries.filter (fun entry => p entry.1) = t.entries := by
  have hinj (a b : String × OrderedValue) (hab : (a.1, a.2.1) = (b.1, b.2.1)) : a = b :=
    Prod.ext (Prod.mk.inj hab).1 (Subtype.ext (Prod.mk.inj hab).2)
  refine (List.map_inj_right hinj).1 ?_
  rw [map_entries, ← h, ← s.map_entries, List.filter_map]
  rfl

end State

end LiveMarkup
