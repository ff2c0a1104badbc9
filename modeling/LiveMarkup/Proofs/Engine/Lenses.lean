import LiveMarkup.Proofs.Engine.Telling
import LiveMarkup.Proofs.State.Slots

/-!
# Handles as lenses

All handles of a store are views of one value. A write through a handle changes one slot of it
(`Write.updateAt_slot`), if the path of the handle leads to an object or array that has such a slot,
and nothing otherwise; what is read afterwards through any handle is what stands at the end of its
path. So writes to slots of which none is at or below the other can be made in either order
(`World.lenses`). The path of a handle may have become stale.

This is about the states that writes lead to (`Value.Reached`); of a merge, every entry is such a
write (`World.Merges`).
-/

namespace LiveMarkup

variable {σ : Type}

/-! ## What a write does to its slot -/

namespace Value

variable {root c v : Value} {path : Path} {key : String} {index : Nat}

/-- A value put in place of what is there, unless that is the same. -/
def overwrite (v : Value) (old : Option Value) : Option Value :=
  if old.any fun old => old.sameInState v then old else some v

/-- Whether a value has slots of a kind: an object those of keys, an array those of indexes. -/
def HasSlots : Value → Segment → Prop
  | object _, .key _ => True
  | array _, .index _ => True
  | _, _ => False

theorem alter_of_not_hasSlots {u : Option Value → Option Value} {s : Segment}
    (h : ¬ c.HasSlots s) : c.alter u s = c := by
  cases c with
  | object fields =>
    cases s with
    | key k => exact absurd trivial h
    | index i => rfl
  | array items =>
    cases s with
    | key k => rfl
    | index i => exact absurd trivial h
  | _ => rfl

theorem replaceAt_alter_of_not_hasSlots {u : Option Value → Option Value} {s : Segment}
    (hroot : root.Ordered) (hc : root.resolve? path = some c) (h : ¬ c.HasSlots s) :
    root.replaceAt path (c.alter u s) = root := by
  rw [alter_of_not_hasSlots h, replaceAt_self hroot hc]

theorem objectAt?_of_object {fields : Fields} (hc : root.resolve? path = some (object fields)) :
    root.objectAt? path = some fields := by
  rw [objectAt?, hc]
  rfl

theorem objectAt?_of_not_hasSlots (hc : root.resolve? path = some c)
    (h : ¬ c.HasSlots (.key key)) : root.objectAt? path = none := by
  rw [objectAt?, hc]
  cases c with
  | object fields => exact absurd trivial h
  | _ => rfl

theorem arrayAt?_of_array {items : List Value} (hc : root.resolve? path = some (array items)) :
    root.arrayAt? path = some items := by
  rw [arrayAt?, hc]
  rfl

theorem arrayAt?_of_not_hasSlots (hc : root.resolve? path = some c)
    (h : ¬ c.HasSlots (.index index)) : root.arrayAt? path = none := by
  rw [arrayAt?, hc]
  cases c with
  | array items => exact absurd trivial h
  | _ => rfl

/-- An object stays one, whatever is changed in it. -/
theorem exists_object_of_updateAt {u : Option Value → Option Value} {slot : Path} {fields : Fields}
    {new : Value} (hslot : slot ≠ []) (h : updateAt u slot (some (object fields)) = some new) :
    ∃ fields', new = object fields' := by
  cases slot with
  | nil => exact absurd rfl hslot
  | cons s rest =>
    obtain rfl := Option.some.inj h
    cases s with
    | key k => exact ⟨_, rfl⟩
    | index i => exact ⟨_, rfl⟩

theorem overwrite_eq_self {old : Option Value} (h : old.any (fun old => old.sameInState v) = true) :
    v.overwrite old = old := if_pos h

theorem overwrite_eq_some {old : Option Value}
    (h : ¬ old.any (fun old => old.sameInState v) = true) : v.overwrite old = some v := if_neg h

theorem put?_getD (hroot : root.Ordered) (hc : root.resolve? path = some c) :
    (root.put? path key v).getD root = root.replaceAt path (c.alter v.overwrite (.key key)) := by
  by_cases hslots : c.HasSlots (.key key)
  · cases c with
    | object fields =>
      rw [put?, objectAt?_of_object hc]
      simp only
      split
      · next hsame =>
        have hself := (hroot.resolve? hc).inOrder.alter_eq_self (overwrite_eq_self hsame)
        rw [alter, hself, replaceAt_self hroot hc, Option.getD_none]
      · next hnew =>
        rw [alter, Fields.alter, overwrite_eq_some hnew, Option.getD_some]
    | _ => exact hslots.elim
  · rw [put?, objectAt?_of_not_hasSlots hc hslots,
      replaceAt_alter_of_not_hasSlots hroot hc hslots]
    rfl

theorem putAt?_getD (hroot : root.Ordered) (hc : root.resolve? path = some c) :
    (root.putAt? path index v).getD root =
      root.replaceAt path (c.alter v.overwrite (.index index)) := by
  by_cases hslots : c.HasSlots (.index index)
  · cases c with
    | array items =>
      rw [putAt?, arrayAt?_of_array hc, alter]
      simp only
      split
      · next hlast =>
        subst hlast
        rw [alterItem_of_length_le (Nat.le_refl _), if_pos rfl]
        rfl
      · next hne =>
        split
        · next hnone =>
          have hpast := List.getElem?_eq_none_iff.1 hnone
          rw [alterItem_of_length_le hpast, if_neg hne, replaceAt_self hroot hc, Option.getD_none]
        · next old hold =>
          rw [alterItem_of_some hold]
          split
          · next hsame =>
            obtain ⟨hi, rfl⟩ := List.getElem?_eq_some_iff.1 hold
            have hstays : v.overwrite (some items[index]) = some items[index] :=
              overwrite_eq_self hsame
            rw [hstays, Option.getD_some, List.set_getElem_self, replaceAt_self hroot hc,
              Option.getD_none]
          · next hnew =>
            have hput : v.overwrite (some old) = some v := overwrite_eq_some hnew
            rw [hput, Option.getD_some, Option.getD_some]
    | _ => exact hslots.elim
  · rw [putAt?, arrayAt?_of_not_hasSlots hc hslots,
      replaceAt_alter_of_not_hasSlots hroot hc hslots]
    rfl

theorem take?_getD (hroot : root.Ordered) (hc : root.resolve? path = some c) :
    ((root.take? path key).map Prod.snd).getD root =
      root.replaceAt path (c.alter (fun _ => none) (.key key)) := by
  by_cases hslots : c.HasSlots (.key key)
  · cases c with
    | object fields =>
      rw [take?, objectAt?_of_object hc, alter, Fields.alter]
      simp only
      cases hold : Fields.find? fields key with
      | none =>
        rw [Fields.erase_eq_self hold, replaceAt_self hroot hc]
        rfl
      | some old => rfl
    | _ => exact hslots.elim
  · rw [take?, objectAt?_of_not_hasSlots hc hslots,
      replaceAt_alter_of_not_hasSlots hroot hc hslots]
    rfl

end Value

namespace Write

variable {e : Write} {root new : OrderedValue}

/-- The path of the handle. -/
def path : Write → Path
  | set h _ _ | setIndex h _ _ | remove h _ => h.path

/-- The step from there to the slot. -/
def segment : Write → Segment
  | set _ key _ | remove _ key => .key key
  | setIndex _ index _ => .index index

/-- The slot that is written to. -/
def slot (e : Write) : Path := e.path ++ [e.segment]

/-- The value that is put there, if one is. -/
def value? : Write → Option Value
  | set _ _ v | setIndex _ _ v => some v.1
  | remove _ _ => none

/-- What becomes of the slot. -/
def update (e : Write) (old : Option Value) : Option Value :=
  e.value?.bind fun v => v.overwrite old

/-- The path of the handle leads to an object or array that has such a slot. -/
def Fits (e : Write) (root : Value) : Prop :=
  ∃ c, root.navigate? e.path = some c ∧ c.HasSlots e.segment

theorem change?_of_resolve?_eq_none (h : root.1.resolve? e.path = none) :
    e.change? root = none := by
  refine Option.map_eq_none_iff.1 ((e.map_val_change? root).trans ?_)
  cases e with
  | set handle key v =>
    have hnone : root.1.objectAt? handle.path = none := by rw [Value.objectAt?]; exact h ▸ rfl
    simp only [Value.put?, hnone]
  | setIndex handle index v =>
    have hnone : root.1.arrayAt? handle.path = none := by rw [Value.arrayAt?]; exact h ▸ rfl
    simp only [Value.putAt?, hnone]
  | remove handle key =>
    have hnone : root.1.objectAt? handle.path = none := by rw [Value.objectAt?]; exact h ▸ rfl
    simp only [Value.take?, hnone, Option.map_none]

theorem change?_getD {c : Value} (hc : root.1.resolve? e.path = some c) :
    ((e.change? root).getD root).1 = root.1.replaceAt e.path (c.alter e.update e.segment) := by
  rw [← Option.getD_map Subtype.val, map_val_change?]
  cases e with
  | set h key v => exact Value.put?_getD root.2 hc
  | setIndex h index v => exact Value.putAt?_getD root.2 hc
  | remove h key => exact Value.take?_getD root.2 hc

/-- A write changes its slot. -/
theorem updateAt_slot (e : Write) (root : OrderedValue) :
    Value.updateAt e.update e.slot (some root.1) = some ((e.change? root).getD root).1 := by
  rw [slot, Value.updateAt_append]
  cases hc : root.1.resolve? e.path with
  | none =>
    rw [change?_of_resolve?_eq_none hc, Option.getD_none]
    exact Value.updateAt_of_resolve?_eq_none root.2 (Value.maps_map _) hc
  | some c =>
    rw [change?_getD hc]
    exact Value.updateAt_of_resolve? (Value.maps_map _) hc

theorem change?_eq_none_of_not_fits (h : ¬ e.Fits root.1) : e.change? root = none := by
  cases hc : root.1.resolve? e.path with
  | none => exact change?_of_resolve?_eq_none hc
  | some c =>
    have hslots : ¬ c.HasSlots e.segment := fun hs =>
      h ⟨c, (Value.resolve?_eq_navigate? root.1 e.path).symm.trans hc, hs⟩
    have hsame := change?_getD hc
    rw [Value.alter_of_not_hasSlots hslots, Value.replaceAt_self root.2 hc] at hsame
    cases hnew : e.change? root with
    | none => rfl
    | some new =>
      rw [hnew] at hsame
      exact absurd (Subtype.ext hsame) (change?_ne hnew)

/-- Where something changes, the slot holds what was written, or nothing if it was emptied. -/
theorem navigate?_slot (hnew : e.change? root = some new) :
    new.1.navigate? e.slot = e.value? := by
  rw [← Value.resolve?_eq_navigate?, slot, Value.resolve?_concat]
  replace hnew := congrArg (Option.map Subtype.val) hnew
  rw [map_val_change?, Option.map_some] at hnew
  generalize new.1 = new at hnew ⊢
  cases e with
  | set h key v =>
    simp only [Value.put?] at hnew
    split at hnew
    · cases hnew
    next fields hfields =>
    split at hnew
    · cases hnew
    cases hnew
    rw [path, Value.resolve?_replaceAt (Value.resolve?_of_objectAt? hfields)]
    change (fields.insert key v.1).find? key = some v.1
    rw [Fields.find?_insert, if_pos rfl]
  | setIndex h index v =>
    simp only [Value.putAt?] at hnew
    split at hnew
    · cases hnew
    next items hitems =>
    have hhere := Value.resolve?_of_arrayAt? hitems
    split at hnew
    · next hlast =>
      cases hnew
      rw [path, Value.resolve?_replaceAt hhere, hlast]
      exact List.getElem?_concat_length
    · split at hnew
      · cases hnew
      next old hold =>
      split at hnew
      · cases hnew
      cases hnew
      obtain ⟨hi, -⟩ := List.getElem?_eq_some_iff.1 hold
      rw [path, Value.resolve?_replaceAt hhere]
      exact List.getElem?_set_self hi
  | remove h key =>
    obtain ⟨⟨old, left⟩, htake, rfl⟩ := Option.map_eq_some_iff.1 hnew
    rw [Value.take?] at htake
    split at htake
    · cases htake
    next fields hfields =>
    obtain ⟨old', -, he⟩ := Option.map_eq_some_iff.1 htake
    cases he
    have hhere := Value.resolve?_of_objectAt? hfields
    rw [path, Value.resolve?_replaceAt hhere]
    change (fields.erase key).find? key = none
    rw [(root.2.resolve? hhere).inOrder.find?_erase, if_pos rfl]

variable {w : World σ} {call : Callback σ → Run σ Unit}

theorem run_eq_of_none (hroot : w.state? e.store = some root) (hsame : e.change? root = none) :
    e.run call w = some (false, w) := by
  have hchange : (w.state? e.store).bind e.change? = none := by rw [hroot, Option.bind_some, hsame]
  cases e with
  | set h key v => exact Run.write_eq_of_none hchange
  | setIndex h index v => exact Run.write_eq_of_none hchange
  | remove h key =>
    change w.state? h.store = some root at hroot
    have htake : ((w.state? h.store).bind fun root => root.take? h.path key) = none := by
      rw [hroot, Option.bind_some]
      exact Option.map_eq_none_iff.1 hsame
    refine Run.bind_eq_some_iff.2 ⟨none, w, ?_, rfl⟩
    unfold Run.remove
    refine Run.bind_eq_some_iff.2 ⟨w, w, rfl, ?_⟩
    rw [htake]
    rfl

theorem run_eq_of_some (hl : ∀ st, w.stores[e.store]? = some st → st.listeners = [])
    (hroot : w.state? e.store = some root) (hnew : e.change? root = some new) :
    e.run call w = some (true, ((w.modifyStore e.store fun s =>
      { s with value := new }).record (.changed e.store new)).record (.told e.store)) := by
  have hchange : (w.state? e.store).bind e.change? = some new := by
    rw [hroot, Option.bind_some, hnew]
  cases e with
  | set h key v => exact Run.write_eq_of_some hl hchange
  | setIndex h index v => exact Run.write_eq_of_some hl hchange
  | remove h key =>
    obtain ⟨⟨old, left⟩, htake, rfl⟩ := Option.map_eq_some_iff.1 hnew
    change w.state? h.store = some root at hroot
    have hfound : ((w.state? h.store).bind fun root => root.take? h.path key) =
        some (old, left) := by
      rw [hroot, Option.bind_some, htake]
    refine Run.bind_eq_some_iff.2 ⟨some old, _, ?_, rfl⟩
    unfold Run.remove
    refine Run.bind_eq_some_iff.2 ⟨w, w, rfl, ?_⟩
    rw [hfound]
    exact Run.bind_eq_some_iff.2 ⟨true, _, Run.write_eq_of_some hl hchange, rfl⟩

/-- Where nobody listens, a write changes the state, or leaves the world as it is. -/
theorem exists_run_eq (call : Callback σ → Run σ Unit)
    (hl : ∀ st, w.stores[e.store]? = some st → st.listeners = [])
    (hroot : w.state? e.store = some root) :
    ∃ w', e.run call w = some ((e.change? root).isSome, w') ∧
      w'.state? e.store = some ((e.change? root).getD root) ∧
      (∀ st, w'.stores[e.store]? = some st → st.listeners = []) ∧
      (∀ other, e.store ≠ other → w'.stores[other]? = w.stores[other]?) ∧
      (e.change? root = none → w' = w) := by
  cases hnew : e.change? root with
  | none => exact ⟨w, run_eq_of_none hroot hnew, hroot, hl, fun _ _ => rfl, fun _ => rfl⟩
  | some new =>
    obtain ⟨st, hst, -⟩ := Option.map_eq_some_iff.1 hroot
    refine ⟨_, run_eq_of_some hl hroot hnew, World.state?_modifyStore hst _, fun st' hst' => ?_,
      fun other hne => List.getElem?_modify_ne _ _ hne, nofun⟩
    change (w.stores.modify e.store _)[e.store]? = some st' at hst'
    rw [List.getElem?_modify_eq, hst] at hst'
    obtain rfl := Option.some.inj hst'
    exact hl st hst

end Write

/-! ## Stores -/

namespace OrderedValue

variable {root : OrderedValue}

/-- States of a store: a new one, and what writes make of it. -/
inductive Reached : OrderedValue → Prop
  | new (state : State) : Reached state.root
  | write {root new : OrderedValue} (e : Write) (h : Reached root)
    (hnew : e.change? root = some new) : Reached new

theorem Reached.exists_state (h : root.Reached) : ∃ state : State, state.root = root := by
  induction h with
  | new state => exact ⟨state, rfl⟩
  | @write root new e hroot hnew ih =>
    obtain ⟨state, rfl⟩ := ih
    have hslot := e.updateAt_slot state.root
    rw [hnew, Option.getD_some] at hslot
    obtain ⟨fields, hfields⟩ := Value.exists_object_of_updateAt
      (List.append_ne_nil_of_right_ne_nil _ (List.cons_ne_nil _ _)) hslot
    obtain ⟨made, hmade, -⟩ := State.exists_root_eq hfields
    exact ⟨made, hmade⟩

theorem Reached.getD_change? (h : root.Reached) (e : Write) :
    OrderedValue.Reached ((e.change? root).getD root) := by
  cases hnew : e.change? root with
  | none => exact h
  | some new => exact h.write e hnew

end OrderedValue

namespace World

/-- What is read through every handle of a store is what the root has at the end of its path. -/
def Reads (w : World σ) (store : StoreId) (root : Value) : Prop :=
  ∀ h : Handle, h.store = store →
    w.value? h = root.navigate? h.path ∧
    w.snapshot h = ((root.navigate? h.path).bind Value.fields?).getD [] ∧
    (∀ key, w.get? h key = root.navigate? (h.path ++ [.key key])) ∧
    ∀ s, w.descend? h s =
      if (root.navigate? (h.path ++ [s])).any Value.isNested then some ⟨store, h.path ++ [s]⟩
      else none

variable {w : World σ} {store : StoreId} {root : OrderedValue}

theorem reads_of_state? (h : w.state? store = some root) : w.Reads store root.1 := by
  rintro handle rfl
  have hvalue (path : Path) : w.value? ⟨handle.store, path⟩ = root.1.navigate? path := by
    rw [value?, h, Option.bind_some, Value.resolve?_eq_navigate?]
  have hhere : w.value? handle = root.1.navigate? handle.path := hvalue handle.path
  refine ⟨hhere, by rw [snapshot, hhere], fun key => ?_, fun s => ?_⟩
  · rw [get?, hhere, ← Value.resolve?_eq_navigate?, ← Value.resolve?_eq_navigate?,
      Value.resolve?_concat, Option.bind_assoc]
    refine congrArg _ (funext fun v => ?_)
    cases v <;> rfl
  · rw [descend?, hvalue]

/-- Handles of one store are lenses into one value. Of a write through a handle, only the slot is
changed, and only if the path of the handle leads to an object or array that has it. Writes to
slots of which none is at or below the other give the same state in either order, unless both lie
behind the end of one array. -/
theorem lenses (call : Callback σ → Run σ Unit) (hroot : w.state? store = some root)
    (hreached : root.Reached) (hl : ∀ st, w.stores[store]? = some st → st.listeners = []) :
    (∃ state : State, state.root = root) ∧ w.Reads store root.1 ∧
      (∀ e : Write, e.store = store →
        ∃ changed w', ∃ new : OrderedValue, e.run call w = some (changed, w') ∧
          w'.state? store = some new ∧ new.Reached ∧ w'.Reads store new.1 ∧
          (∀ other, store ≠ other → w'.stores[other]? = w.stores[other]?) ∧
          (¬ e.Fits root.1 → changed = false) ∧ (changed = false → w' = w) ∧
          (changed = true → new.1.navigate? e.slot = e.value?) ∧
          ∀ path, ¬ e.slot <+: path → ¬ path <+: e.slot →
            new.1.navigate? path = root.1.navigate? path) ∧
      ∀ e e' : Write, e.store = store → e'.store = store →
        ¬ e.slot <+: e'.slot → ¬ e'.slot <+: e.slot → ¬ root.1.BothPastEnd e.slot e'.slot →
        ∃ first second first' second' once twice once' twice',
          e.run call w = some (first, once) ∧ e'.run call once = some (second, twice) ∧
          e'.run call w = some (first', once') ∧ e.run call once' = some (second', twice') ∧
          twice.state? store = twice'.state? store := by
  refine ⟨hreached.exists_state, reads_of_state? hroot, ?_, ?_⟩
  · rintro e rfl
    obtain ⟨w', hrun, hstate, -, hothers, hstays⟩ := e.exists_run_eq call hl hroot
    have hslot := e.updateAt_slot root
    refine ⟨_, w', _, hrun, hstate, ?_, reads_of_state? hstate, hothers, fun hfits => ?_,
      fun hsame => ?_, fun hchanged => ?_, fun path h h' => ?_⟩
    · exact hreached.getD_change? e
    · rw [Write.change?_eq_none_of_not_fits hfits]
      rfl
    · exact hstays (Option.not_isSome_iff_eq_none.1 (by rw [hsame]; exact Bool.false_ne_true))
    · obtain ⟨new, hnew⟩ := Option.isSome_iff_exists.1 hchanged
      rw [hnew]
      exact Write.navigate?_slot hnew
    · rw [← Value.resolve?_eq_navigate?, ← Value.resolve?_eq_navigate?]
      exact Value.resolve?_updateAt root.2 h h' hslot
  · rintro e e' rfl hstore h h' hend
    obtain ⟨once, hfirst, hstate, hl₁, -⟩ := e.exists_run_eq call hl hroot
    rw [← hstore] at hroot hl hl₁ hstate
    obtain ⟨once', hfirst', hstate', hl₁', -⟩ := e'.exists_run_eq call hl hroot
    obtain ⟨twice, hsecond, htwice, -⟩ := e'.exists_run_eq call hl₁ hstate
    rw [hstore] at hl₁' hstate'
    obtain ⟨twice', hsecond', htwice', -⟩ := e.exists_run_eq call hl₁' hstate'
    refine ⟨_, _, _, _, once, twice, once', twice', hfirst, hsecond, hfirst', hsecond', ?_⟩
    rw [← hstore, htwice, hstore, htwice']
    refine congrArg some (Subtype.ext (Option.some.inj ?_))
    rw [← e'.updateAt_slot, ← e.updateAt_slot, ← e.updateAt_slot, ← e'.updateAt_slot]
    exact Value.updateAt_comm root.2 h h' hend

/-- An item put behind the last one of an array, and a field put beside the array: the handle of
the array is nested in that of the object. -/
theorem lenses_of_nested :
    let state : State :=
      .ofFields [("a", .object [("items", .array [.bool true])]), ("b", .null)]
    let w : World Unit :=
      ((World.build {} (fun _ host => host) [] ()).addStore state fun _ host => host).1
    let items : Write := .setIndex ⟨0, [.key "a", .key "items"]⟩ 1 (.ofValue (.bool false))
    let field : Write := .set ⟨0, [.key "a"]⟩ "name" (.ofValue (.string "x"))
    w.state? 0 = some state.root ∧ state.root.Reached ∧
      (∀ st, w.stores[0]? = some st → st.listeners = []) ∧ items.Fits state.root.1 ∧
      (∃ w', ∃ new : OrderedValue, items.run (fun _ => failure) w = some (true, w') ∧
        w'.state? 0 = some new ∧
        new.1.navigate? [.key "a", .key "items", .index 1] = some (.bool false) ∧
        new.1.navigate? [.key "a", .key "items", .index 0] = some (.bool true)) ∧
      ∃ first second first' second' once twice once' twice',
        items.run (fun _ => failure) w = some (first, once) ∧
        field.run (fun _ => failure) once = some (second, twice) ∧
        field.run (fun _ => failure) w = some (first', once') ∧
        items.run (fun _ => failure) once' = some (second', twice') ∧
        twice.state? 0 = twice'.state? 0 := by
  intro state w items field
  have hl : ∀ st, w.stores[0]? = some st → st.listeners = [] := by
    rintro _ ⟨⟩
    rfl
  obtain ⟨-, -, hwrites, hboth⟩ := lenses (fun _ => failure) rfl (.new state) hl
  refine ⟨rfl, .new state, hl, ⟨_, rfl, trivial⟩, ?_, ?_⟩
  · obtain ⟨changed, w', new, hrun, hnew, -, -, -, -, -, hslot, hframe⟩ :=
      hwrites items rfl
    have hdone : (items.run (fun _ => failure) w).map Prod.fst = some true := rfl
    rw [hrun, Option.map_some, Option.some_inj] at hdone
    exact ⟨w', new, hdone ▸ hrun, hnew, hslot hdone,
      hframe [.key "a", .key "items", .index 0] (by decide) (by decide)⟩
  · refine hboth items field rfl rfl (by decide) (by decide) ?_
    rintro ⟨path, items', i, j, -, -, hj, -⟩
    have := congrArg List.getLast? hj
    simp [field, Write.slot, Write.segment, Write.path] at this

end World

end LiveMarkup
