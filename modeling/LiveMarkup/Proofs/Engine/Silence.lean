import LiveMarkup.Proofs.Engine.Lenses
import LiveMarkup.Proofs.State.Sameness

/-!
# Silent writes

A write is silent if it leaves the world as it is and calls nobody (`Write.Silent`). Where a slot
holds a value, to write another one there is silent exactly if the two are the same
(`Write.silent_iff_sameInState`). As being the same is an equivalence, it does not matter which one
of two such values the slot holds, nor which one of two such states the store has
(`Write.silent_iff_of_same`).
-/

namespace LiveMarkup

variable {σ : Type}

/-! ## When something changes -/

namespace Value

variable {root root' v w new : Value} {path : Path} {key : String} {index : Nat}

theorem isSome_put? : (root.put? path key new).isSome =
    (root.objectAt? path).any fun fields =>
      !(fields.find? key).any fun old => old.sameInState new := by
  rw [put?]
  cases root.objectAt? path with
  | none => rfl
  | some fields =>
    simp only [Option.any_some]
    split
    · next hsame => rw [hsame, Option.isSome_none, Bool.not_true]
    · next hnew => rw [Bool.eq_false_iff.2 hnew, Option.isSome_some, Bool.not_false]

theorem isSome_putAt? : (root.putAt? path index new).isSome =
    (root.arrayAt? path).any fun items =>
      index == items.length || items[index]?.any fun old => !old.sameInState new := by
  rw [putAt?]
  cases root.arrayAt? path with
  | none => rfl
  | some items =>
    rw [Option.any_some]
    by_cases hlast : index = items.length
    · simp [hlast]
    · simp only [if_neg hlast, beq_false_of_ne hlast, Bool.false_or]
      cases items[index]? with
      | none => rfl
      | some old => cases hsame : old.sameInState new <;> simp [hsame]

theorem isSome_take? : (root.take? path key).isSome =
    (root.objectAt? path).any fun fields => (fields.find? key).isSome := by
  rw [take?]
  cases root.objectAt? path with
  | none => rfl
  | some fields => exact Option.isSome_map

end Value

namespace Write

variable {call : Callback σ → Run σ Unit} {w : World σ} {e : Write}
  {root root' : OrderedValue} {old v : Value}

/-- The write says that nothing changed, and nothing did: nobody is called. -/
def Silent (call : Callback σ → Run σ Unit) (e : Write) (w : World σ) : Prop :=
  e.run call w = some (false, w)

theorem silent_iff (hroot : w.state? e.store = some root) :
    e.Silent call w ↔ e.change? root = none := by
  refine ⟨fun h => ?_, run_eq_of_none hroot⟩
  have hchanged := changed_eq (write_of_run h)
  rw [hroot, Option.bind_some] at hchanged
  exact Option.not_isSome_iff_eq_none.1 (Bool.eq_false_iff.1 hchanged.symm)

theorem isSome_change? (hv : e.value? = some v) (hold : root.1.resolve? e.slot = some old) :
    (e.change? root).isSome = !old.sameInState v := by
  rw [← Option.isSome_map, map_val_change?]
  rw [slot, Value.resolve?_concat] at hold
  obtain ⟨c, hc, hold⟩ := Option.bind_eq_some_iff.1 hold
  cases e with
  | set h key new =>
    obtain rfl := Option.some.inj hv
    cases c with
    | object fields =>
      rw [path] at hc
      change Fields.find? fields key = some old at hold
      rw [Value.isSome_put?, Value.objectAt?_of_object hc, Option.any_some, hold, Option.any_some]
    | _ => cases hold
  | setIndex h index new =>
    obtain rfl := Option.some.inj hv
    cases c with
    | array items =>
      rw [path] at hc
      change items[index]? = some old at hold
      obtain ⟨hlt, -⟩ := List.getElem?_eq_some_iff.1 hold
      rw [Value.isSome_putAt?, Value.arrayAt?_of_array hc, Option.any_some, hold, Option.any_some,
        beq_false_of_ne hlt.ne, Bool.false_or]
    | _ => cases hold
  | remove h key => cases hv

/-- Where a slot holds a value, a write there is silent exactly if its value is the same. -/
theorem silent_iff_sameInState (hv : e.value? = some v)
    (hold : w.value? ⟨e.store, e.slot⟩ = some old) :
    e.Silent call w ↔ old.sameInState v = true := by
  obtain ⟨root, hroot, hold⟩ := Option.bind_eq_some_iff.1 hold
  rw [silent_iff hroot, ← Option.not_isSome_iff_eq_none, isSome_change? hv hold,
    Bool.not_eq_true', Bool.not_eq_false]

/-- Where states are the same, a write changes both of them or none. -/
theorem isSome_change?_of_sameInState (h : root.1.sameInState root'.1 = true) (e : Write) :
    (e.change? root).isSome = (e.change? root').isSome := by
  have hvalue (v : OrderedValue) :
      (e.change? v).isSome = ((e.change? v).map Subtype.val).isSome := Option.isSome_map.symm
  rw [hvalue root, hvalue root', map_val_change?, map_val_change?]
  cases e with
  | set handle key v =>
    rw [Value.isSome_put?, Value.isSome_put?]
    refine Value.any_eq_of_rel (Value.rel_objectAt? h _) fun xs ys hxy => congrArg _ ?_
    exact Value.any_eq_of_rel (Value.rel_find? hxy key) fun _ _ hold =>
      Value.sameInState_congr hold (Value.sameInState_self v.1)
  | setIndex handle index v =>
    rw [Value.isSome_putAt?, Value.isSome_putAt?]
    refine Value.any_eq_of_rel (Value.rel_arrayAt? h _) fun xs ys hxy => ?_
    rw [Value.length_eq_of_agreeItems hxy]
    refine congrArg _ (Value.any_eq_of_rel (Value.rel_getElem? hxy index) fun _ _ hold => ?_)
    rw [Value.sameInState_congr hold (Value.sameInState_self v.1)]
  | remove handle key =>
    rw [Option.isSome_map, Option.isSome_map, Value.isSome_take?, Value.isSome_take?]
    refine Value.any_eq_of_rel (Value.rel_objectAt? h _) fun xs ys hxy => ?_
    exact Value.isSome_eq_of_rel (Value.rel_find? hxy key)

/-- Writes compare values by looking up the keys of one side in the other one, and the numbers by
their nearest doubles. For values in order, that is an equivalence. So whether a write is silent
depends neither on which of two values that are the same is in its slot, nor on which of two states
that are the same the store has, nor on which of two values that are the same is written. -/
theorem silent_iff_of_same (call call' : Callback σ → Run σ Unit) :
    (∀ v v' : OrderedValue,
      v.1.sameInState v'.1 = Value.agreeByKeys Value.sameNumber v.1 v'.1) ∧
    (Equivalence fun v v' : OrderedValue =>
      Value.agreeByKeys Value.sameNumber v.1 v'.1 = true) ∧
    (∀ (e e' : Write) (w w' : World σ) (v v' old old' : Value),
      e.value? = some v → e'.value? = some v' → v.sameInState v' = true →
      w.value? ⟨e.store, e.slot⟩ = some old → w'.value? ⟨e'.store, e'.slot⟩ = some old' →
      old.sameInState old' = true → (e.Silent call w ↔ e'.Silent call' w')) ∧
    ∀ (e : Write) (w w' : World σ) (root root' : OrderedValue),
      w.state? e.store = some root → w'.state? e.store = some root' →
      root.1.sameInState root'.1 = true → (e.Silent call w ↔ e.Silent call' w') := by
  refine ⟨fun v v' => (Value.agreeByKeys_eq_agree v.2 v'.2).symm,
    Value.agreeByKeys_equivalence Value.sameNumber_equivalence, ?_, ?_⟩
  · intro e e' w w' v v' old old' hv hv' hnew hold hold' hsame
    rw [silent_iff_sameInState hv hold, silent_iff_sameInState hv' hold',
      Value.sameInState_congr hsame hnew]
  · intro e w w' root root' hroot hroot' hsame
    rw [silent_iff hroot, silent_iff hroot', ← Option.not_isSome_iff_eq_none,
      ← Option.not_isSome_iff_eq_none, isSome_change?_of_sameInState hsame]

/-- One as an integer and one as a double, inside an object: to write either in place of the other
is silent, in a store that has either. To write an object with a further key is not. -/
theorem silent_iff_of_same_of_nested :
    let item (n : Number) : OrderedValue := .ofValue (.object [("n", .number n)])
    let wide : OrderedValue := .ofValue (.object [("m", .null), ("n", .number (.int 1))])
    let int : Number := .int 1
    let float : Number := .float ⟨false, FiniteDouble.unitsPerOne⟩
    let world (n : Number) : World Unit := ((World.build {} (fun _ host => host) [] ()).addStore
      (.ofFields [("a", .array [(item n).1])]) fun _ host => host).1
    let e (v : OrderedValue) : Write := .setIndex ⟨0, [.key "a"]⟩ 0 v
    let call : Callback Unit → Run Unit Unit := fun _ => failure
    Value.agreeByKeys Value.sameNumber (item int).1 wide.1 = false ∧
      (item int).1.sameInState (item float).1 = true ∧
      (e (item float)).Silent call (world int) ∧ (e (item float)).Silent call (world float) ∧
      (e (item int)).Silent call (world int) ∧ (e (item int)).Silent call (world float) ∧
      ¬ (e wide).Silent call (world int) ∧ ¬ (e wide).Silent call (world float) := by
  intro item wide int float world e call
  have hsame : (item int).1.sameInState (item float).1 = true := by decide +kernel
  have hroots : (Value.object [("a", .array [(item int).1])]).sameInState
      (.object [("a", .array [(item float).1])]) = true := by decide +kernel
  have hheld (n : Number) (v : OrderedValue) :
      (world n).value? ⟨(e v).store, (e v).slot⟩ = some (item n).1 := rfl
  obtain ⟨hkeys, -, hslot, hstate⟩ := silent_iff_of_same call call
  have hstores (v : OrderedValue) :
      (e v).Silent call (world int) ↔ (e v).Silent call (world float) :=
    hstate (e v) (world int) (world float) _ _ rfl rfl hroots
  have hdiffer : (item int).1.sameInState wide.1 = false := by decide +kernel
  have hnever : ¬ (e wide).Silent call (world int) := by
    rw [silent_iff_sameInState rfl (hheld int wide), hdiffer]
    exact Bool.false_ne_true
  have hint : (e (item int)).Silent call (world int) :=
    (silent_iff_sameInState rfl (hheld int _)).2 (Value.sameInState_self _)
  have hfloat : (e (item float)).Silent call (world float) :=
    (hslot (e (item int)) (e (item float)) (world int) (world float) _ _ _ _ rfl rfl hsame
      (hheld int _) (hheld float _) hsame).1 hint
  exact ⟨(hkeys _ _).symm.trans hdiffer, hsame, (hstores _).2 hfloat,
    hfloat, hint, (hstores _).1 hint, hnever, (hstores _).not.1 hnever⟩

end Write

end LiveMarkup
