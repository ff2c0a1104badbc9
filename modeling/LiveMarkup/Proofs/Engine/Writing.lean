import LiveMarkup.Engine.Write
import LiveMarkup.Proofs.Engine.Ensuring
import LiveMarkup.Proofs.Json.Agreement
import LiveMarkup.Proofs.Number.Nearest
import LiveMarkup.Proofs.State.Resolving
import Mathlib.Logic.Basic

/-!
# Which writes are lost

A write puts its value in place, unless the value that is there counts as the same. Numbers count as
the same if their nearest doubles are, though they are equal only if their exact values are
(`Value.equals`). A write is lost exactly if a value counts as the same without being equal
(`World.Blurs`, `Run.exists_set_holds_iff`). Values whose numbers lie between `-2⁵³` and `2⁵³` are
never lost.
-/

namespace LiveMarkup

variable {σ : Type}

/-! ## Equal values -/

namespace Value

/-- The values are equal, their numbers by the exact values. -/
def equals (v w : Value) : Bool := v.agree (fun m n => m.units == n.units) w

theorem equals_self (v : Value) : v.equals v = true :=
  agree_self (fun n => beq_self_eq_true n.units) v

theorem equals_of_sameInState {v w : Value} (hw : w.AllNumbers Number.IsSmall)
    (h : v.sameInState w = true) : v.equals w = true :=
  agree_of_imp (p := Number.IsSmall)
    (fun _ _ hn hs => beq_iff_eq.2 (Number.units_eq_of_same hs hn)) hw h

end Value

namespace World

variable {w : World σ} {h : Handle} {key : String} {v : Value}

/-- The value under a key of the object at a handle is equal to a value. -/
def Holds (w : World σ) (h : Handle) (key : String) (v : Value) : Prop :=
  ∃ got, w.get? h key = some got ∧ got.equals v = true

/-- The value under a key of the object at a handle counts as the same as a value that it is not
equal to. -/
def Blurs (w : World σ) (h : Handle) (key : String) (v : Value) : Prop :=
  ∃ old, w.get? h key = some old ∧ old.sameInState v = true ∧ ¬ old.equals v = true

theorem not_blurs (hv : v.AllNumbers Number.IsSmall) : ¬ w.Blurs h key v := by
  rintro ⟨old, -, hsame, hne⟩
  exact hne (Value.equals_of_sameInState hv hsame)

theorem state?_modifyStore {store : StoreId} {st : Store σ} (hst : w.stores[store]? = some st)
    (f : Store σ → Store σ) : (w.modifyStore store f).state? store = some (f st).value := by
  change ((w.stores.modify store f)[store]?).map Store.value = _
  rw [List.getElem?_modify_eq, hst]
  rfl

end World

/-! ## Writing where nobody listens -/

namespace Run

variable {call : Callback σ → Run σ Unit} {w : World σ} {store : StoreId} {h : Handle}
  {key : String} {v : OrderedValue} {fields : Fields} {change : OrderedValue → Option OrderedValue}

theorem notify_eq (hl : ∀ st, w.stores[store]? = some st → st.listeners = []) :
    notify call store w = some ((), w.record (.told store)) := by
  have hnobody : (w.stores[store]?.map Store.listeners).getD [] = [] := by
    cases hst : w.stores[store]? with
    | none => rfl
    | some st => exact hl st hst
  change (callAll call store w.history.length ((w.stores[store]?.map Store.listeners).getD []) >>=
    fun _ => modify fun w => w.record (.told store)) w = _
  rw [hnobody]
  rfl

theorem write_eq_of_none (hv : (w.state? store).bind change = none) :
    write call store change w = some (false, w) := by
  unfold write
  refine bind_eq_some_iff.2 ⟨w, w, rfl, ?_⟩
  rw [hv]
  rfl

theorem write_eq_of_some (hl : ∀ st, w.stores[store]? = some st → st.listeners = [])
    (hv : (w.state? store).bind change = some v) :
    write call store change w = some (true, ((w.modifyStore store fun s =>
      { s with value := v }).record (.changed store v)).record (.told store)) := by
  have hl' : ∀ st, ((w.modifyStore store fun s => { s with value := v }).record
      (.changed store v)).stores[store]? = some st → st.listeners = [] := by
    intro st' hst'
    change (w.stores.modify store _)[store]? = some st' at hst'
    rw [List.getElem?_modify_eq, Option.map_eq_map, Option.map_eq_some_iff] at hst'
    obtain ⟨st, hst, rfl⟩ := hst'
    exact hl st hst
  unfold write
  refine bind_eq_some_iff.2 ⟨w, w, rfl, ?_⟩
  rw [hv]
  exact bind_eq_some_iff.2 ⟨_, _, rfl, bind_eq_some_iff.2 ⟨_, _, notify_eq hl', rfl⟩⟩

theorem exists_set_eq_of_put? (call : Callback σ → Run σ Unit) {root new : OrderedValue}
    (hl : ∀ st, w.stores[h.store]? = some st → st.listeners = [])
    (hroot : w.state? h.store = some root) (hput : root.put? h.path key v = some new) :
    ∃ w', Run.set call h key v w = some (true, w') ∧ w'.state? h.store = some new := by
  refine ⟨_, write_eq_of_some hl (by rw [hroot, Option.bind_some, hput]), ?_⟩
  obtain ⟨st, hst, -⟩ := Option.map_eq_some_iff.1 hroot
  exact World.state?_modifyStore hst _

/-- A write to an object either changes nothing, because the old value counts as the same, or its
value is there afterwards, because no old value does. -/
theorem exists_set_eq (call : Callback σ → Run σ Unit)
    (hl : ∀ st, w.stores[h.store]? = some st → st.listeners = [])
    (hobject : (w.value? h).bind Value.fields? = some fields) (key : String)
    (v : OrderedValue) :
    (∃ old, w.get? h key = some old ∧ old.sameInState v.1 = true ∧
        Run.set call h key v w = some (false, w)) ∨
      (∀ old, w.get? h key = some old → old.sameInState v.1 = false) ∧
        ∃ w', Run.set call h key v w = some (true, w') ∧ w'.get? h key = some v.1 := by
  obtain ⟨here, hhere, hfields⟩ := Option.bind_eq_some_iff.1 hobject
  obtain ⟨root, hroot, hresolve⟩ := Option.bind_eq_some_iff.1 hhere
  have hget : w.get? h key = fields.find? key := by rw [World.get?, hobject, Option.bind_some]
  have hput : (root.put? h.path key v).map Subtype.val =
      if (fields.find? key).any fun old => old.sameInState v.1 then none
      else some (root.1.replaceAt h.path (.object (fields.insert key v.1))) := by
    rw [OrderedValue.map_val_put?, Value.put?, Value.objectAt?, hresolve, Option.bind_some, hfields]
  have hchanged (hnew : ((fields.find? key).any fun old => old.sameInState v.1) = false) :
      ∃ w', Run.set call h key v w = some (true, w') ∧ w'.get? h key = some v.1 := by
    rw [hnew, if_neg Bool.false_ne_true] at hput
    obtain ⟨new, hput, hvalue⟩ := Option.map_eq_some_iff.1 hput
    obtain ⟨w', hset, hstate⟩ := exists_set_eq_of_put? call hl hroot hput
    refine ⟨w', hset, ?_⟩
    rw [World.get?, World.value?, hstate, Option.bind_some, hvalue,
      Value.resolve?_replaceAt hresolve, Option.bind_some, Value.fields?, Option.bind_some,
      Fields.find?_insert, if_pos rfl]
  cases hold : fields.find? key with
  | none =>
    refine .inr ⟨fun old hold' => ?_, hchanged (by rw [hold]; rfl)⟩
    cases (hget.trans hold).symm.trans hold'
  | some old =>
    cases hsame : old.sameInState v.1 with
    | false =>
      refine .inr ⟨fun old' hold' => ?_, hchanged (by rw [hold, Option.any_some, hsame])⟩
      obtain rfl := Option.some.inj ((hget.trans hold).symm.trans hold')
      exact hsame
    | true =>
      rw [hold, Option.any_some, hsame, if_pos rfl, Option.map_eq_none_iff] at hput
      exact .inl ⟨old, hget.trans hold, hsame,
        write_eq_of_none (by rw [hroot, Option.bind_some, hput])⟩

/-- What is written is there afterwards, and counts as unchanged only if it was there before,
exactly if the value before does not merely count as the same. If all numbers that are written are
small, that is so. -/
theorem exists_set_holds_iff (hl : ∀ st, w.stores[h.store]? = some st → st.listeners = [])
    (hobject : (w.value? h).bind Value.fields? = some fields) (key : String)
    (v : OrderedValue) :
    ∃ changed w', Run.set call h key v w = some (changed, w') ∧
      ((w'.Holds h key v.1 ∧ (changed = false → w.Holds h key v.1)) ↔ ¬ w.Blurs h key v.1) ∧
      (v.1.AllNumbers Number.IsSmall → ¬ w.Blurs h key v.1) := by
  rcases exists_set_eq call hl hobject key v with
    ⟨old, hold, hsame, hset⟩ | ⟨hnew, w', hset, hget⟩
  · refine ⟨false, w, hset, ⟨?_, fun hclear => ?_⟩, World.not_blurs⟩
    · rintro ⟨⟨got, hgot, heq⟩, -⟩ ⟨old', hold', -, hne⟩
      obtain rfl := Option.some.inj (hgot.symm.trans hold')
      exact hne heq
    · have hholds : w.Holds h key v.1 :=
        ⟨old, hold, not_not.1 fun hne => hclear ⟨old, hold, hsame, hne⟩⟩
      exact ⟨hholds, fun _ => hholds⟩
  · refine ⟨true, w', hset, ⟨fun _ => ?_, fun _ => ⟨⟨v.1, hget, v.1.equals_self⟩, nofun⟩⟩,
      World.not_blurs⟩
    rintro ⟨old, hold, hsame, -⟩
    rw [hnew old hold] at hsame
    cases hsame

/-- The greatest small integer is not lost in place of the next one. -/
theorem exists_set_holds_iff_of_nested :
    let w : World Unit := ((World.build {} (fun _ host => host) [] ()).addStore
      (.ofFields [("a", .object [("n", .array [.number (.int 9007199254740992)])])])
      fun _ host => host).1
    let h : Handle := ⟨0, [.key "a"]⟩
    let v : OrderedValue := .ofValue (.array [.number (.int 9007199254740991)])
    (∀ st, w.stores[h.store]? = some st → st.listeners = []) ∧
      (w.value? h).bind Value.fields? = some [("n", .array [.number (.int 9007199254740992)])] ∧
      ∃ changed w', Run.set (fun _ => failure) h "n" v w = some (changed, w') ∧
        ((w'.Holds h "n" v.1 ∧ (changed = false → w.Holds h "n" v.1)) ↔ ¬ w.Blurs h "n" v.1) ∧
        (v.1.AllNumbers Number.IsSmall → ¬ w.Blurs h "n" v.1) := by
  intro w h v
  have hl : ∀ st, w.stores[h.store]? = some st → st.listeners = [] := by
    rintro _ ⟨⟩
    rfl
  exact ⟨hl, rfl, exists_set_holds_iff hl rfl "n" v⟩

/-- An integer behind `2⁵³` is lost in place of `2⁵³`, whose double is the nearest to it. -/
theorem set_loses_integer :
    let w : World Unit := ((World.build {} (fun _ host => host) [] ()).addStore
      (.ofFields [("n", .number (.int 9007199254740992))]) fun _ host => host).1
    let v : OrderedValue := .ofValue (.number (.int 9007199254740993))
    Run.set (fun _ => failure) (.root 0) "n" v w = some (false, w) ∧
      ¬ w.Holds (.root 0) "n" v.1 := by
  intro w v
  have hl : ∀ st, w.stores[(Handle.root 0).store]? = some st → st.listeners = [] := by
    rintro _ ⟨⟩
    rfl
  have hget : w.get? (.root 0) "n" = some (.number (.int 9007199254740992)) := rfl
  have hsame : (Value.number (.int 9007199254740992)).sameInState v.1 = true := by decide +kernel
  have hne : ¬ (Value.number (.int 9007199254740992)).equals v.1 = true := by decide +kernel
  constructor
  · rcases exists_set_eq (fun _ => failure) hl rfl "n" v with ⟨_, -, -, hset⟩ | ⟨hnew, -⟩
    · exact hset
    · exact absurd hsame (by rw [hnew _ hget]; exact Bool.false_ne_true)
  · rintro ⟨got, hgot, heq⟩
    obtain rfl := Option.some.inj (hget.symm.trans hgot)
    exact hne heq

end Run

end LiveMarkup
