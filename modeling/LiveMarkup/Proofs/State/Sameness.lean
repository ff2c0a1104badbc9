import LiveMarkup.Proofs.State.Overwriting
import LiveMarkup.Proofs.State.Slots
import Mathlib.Data.List.Sort

/-!
# When values of a state are the same

Two objects are the same if they have as many fields and each field of the one is found in the other
under its key, with a value that is the same (`Value.agreeByKeys`). That looks at the keys of one
side only. But an object has each key once, so there is no room for further keys on the other side
(`Fields.InOrder.keys_eq_of_subset`), and for values in order it amounts to comparing fields one
after the other (`Value.agreeByKeys_eq_agree`). Compared like that, values are as much an
equivalence as their numbers are (`Value.agree_equivalence`).

What is looked up in values that are the same is the same again (`Value.rel_resolve?`).
-/

namespace LiveMarkup

/-! ## Keys -/

/-- If each key of an object is one of an object with as many fields, that one has no other keys. -/
theorem Fields.InOrder.keys_eq_of_subset {xs ys : Fields} (hxs : xs.InOrder) (hys : ys.InOrder)
    (hlength : xs.length = ys.length) (hsub : xs.keys ⊆ ys.keys) : xs.keys = ys.keys := by
  have hsublist : xs.keys.Sublist ys.keys :=
    List.sublist_of_subperm_of_pairwise (List.subperm_of_subset hxs.nodup_keys hsub) hxs hys
  refine hsublist.eq_of_length ?_
  rw [keys, keys, List.length_map, List.length_map, hlength]

namespace Value

variable {eq : Number → Number → Bool} {v w : Value}

/-! ## Comparing by keys -/

mutual

/-- Whether two values agree when their numbers are compared by `eq`: the items of an array with
those at their places, the fields of an object with what is found under their keys. -/
def agreeByKeys (eq : Number → Number → Bool) : Value → Value → Bool
  | null, null => true
  | bool a, bool b => a == b
  | number m, number n => eq m n
  | string s, string t => s == t
  | array xs, array ys => xs.length == ys.length && pairsAgree eq xs ys
  | object xs, object ys => xs.length == ys.length && allFound eq xs ys
  | _, _ => false

/-- Whether items agree with those at their places, as far as both arrays go. -/
def pairsAgree (eq : Number → Number → Bool) : List Value → List Value → Bool
  | x :: xs, y :: ys => agreeByKeys eq x y && pairsAgree eq xs ys
  | _, _ => true

/-- Whether for each field an object has a value under its key, and the values agree. -/
def allFound (eq : Number → Number → Bool) : List (String × Value) → Fields → Bool
  | [], _ => true
  | (k, x) :: rest, ys => (ys.find? k).any (agreeByKeys eq x) && allFound eq rest ys

end

theorem agreeFields_iff {xs ys : Fields} : agreeFields eq xs ys = true ↔
    xs.length = ys.length ∧ ∀ i (hi : i < xs.length) (hi' : i < ys.length),
      xs[i].1 = ys[i].1 ∧ agree eq xs[i].2 ys[i].2 = true := by
  have hpairs : agreeFields eq xs ys = true ↔
      List.Forall₂ (fun x y => x.1 = y.1 ∧ agree eq x.2 y.2 = true) xs ys := by
    induction xs generalizing ys with
    | nil => cases ys <;> simp [agreeFields]
    | cons x xs ih => cases ys <;> simp [agreeFields, ih]
  exact hpairs.trans List.forall₂_iff_get

/-- For objects in order, to compare fields one after the other is to look up those of one side. -/
theorem agreeFields_eq_all_found {xs ys : Fields} (hxs : xs.InOrder) (hys : ys.InOrder) :
    agreeFields eq xs ys =
      (xs.length == ys.length && xs.all fun x => (ys.find? x.1).any (agree eq x.2)) := by
  rw [Bool.eq_iff_iff, agreeFields_iff, Bool.and_eq_true, beq_iff_eq, List.all_eq_true]
  have hfind i (hi : i < ys.length) : ys.find? ys[i].1 = some ys[i].2 :=
    hys.find?_of_mem (List.getElem_mem hi)
  refine and_congr_right fun hlength => ⟨fun h x hx => ?_, fun h i hi hi' => ?_⟩
  · obtain ⟨i, hi, rfl⟩ := List.mem_iff_getElem.1 hx
    have hi' : i < ys.length := hlength ▸ hi
    rw [(h i hi hi').1, hfind i hi']
    exact (h i hi hi').2
  · have hsub : xs.keys ⊆ ys.keys := by
      rintro _ hk
      obtain ⟨x, hx, rfl⟩ := List.mem_map.1 hk
      rw [← Fields.contains_eq_true_iff]
      exact Option.isSome_of_any (h x hx)
    have hkeys : xs.keys = ys.keys := hxs.keys_eq_of_subset hys hlength hsub
    have hkey : xs[i].1 = ys[i].1 := by
      simpa [Fields.keys, hi, hi'] using congrArg (·[i]?) hkeys
    have hvalue := h xs[i] (List.getElem_mem hi)
    rw [hkey, hfind i hi'] at hvalue
    exact ⟨hkey, hvalue⟩

mutual

/-- For values in order it does not matter whether fields are looked up or met one after the
other. -/
theorem agreeByKeys_eq_agree :
    ∀ {v w : Value}, v.Ordered → w.Ordered → agreeByKeys eq v w = agree eq v w
  | null, w, _, _ => by cases w <;> rfl
  | bool _, w, _, _ => by cases w <;> rfl
  | number _, w, _, _ => by cases w <;> rfl
  | string _, w, _, _ => by cases w <;> rfl
  | array xs, w, hv, hw => by
    cases w with
    | array ys => exact pairsAgree_eq (fun _ => hv.of_mem_items) fun _ => hw.of_mem_items
    | _ => rfl
  | object xs, w, hv, hw => by
    cases w with
    | object ys =>
      rw [agreeByKeys, agree, allFound_eq (fun _ => hv.of_mem_fields) (fun _ => hw.of_mem_fields),
        agreeFields_eq_all_found hv.inOrder hw.inOrder]
    | _ => rfl

theorem pairsAgree_eq : ∀ {xs ys : List Value}, (∀ v ∈ xs, v.Ordered) → (∀ v ∈ ys, v.Ordered) →
    (xs.length == ys.length && pairsAgree eq xs ys) = agreeItems eq xs ys
  | [], [], _, _ => rfl
  | [], _ :: _, _, _ => rfl
  | _ :: _, [], _, _ => rfl
  | x :: xs, y :: ys, hxs, hys => by
    rw [List.forall_mem_cons] at hxs hys
    rw [pairsAgree, agreeItems, agreeByKeys_eq_agree hxs.1 hys.1, ← pairsAgree_eq hxs.2 hys.2,
      Bool.and_left_comm]
    simp

theorem allFound_eq : ∀ {xs ys : Fields}, (∀ x ∈ xs, x.2.Ordered) → (∀ y ∈ ys, y.2.Ordered) →
    allFound eq xs ys = xs.all fun x => (ys.find? x.1).any (agree eq x.2)
  | [], _, _, _ => rfl
  | (k, x) :: xs, ys, hxs, hys => by
    rw [List.forall_mem_cons] at hxs
    have hfound : (ys.find? k).any (agreeByKeys eq x) = (ys.find? k).any (agree eq x) := by
      cases hy : ys.find? k with
      | none => rfl
      | some y => exact agreeByKeys_eq_agree hxs.1 (hys (k, y) (Fields.mem_of_find? hy))
    rw [allFound, List.all_cons, hfound, allFound_eq hxs.2 hys]

end

/-! ## An equivalence -/

/-- Values are compared by an equivalence if their numbers are. -/
theorem agree_equivalence (h : Equivalence fun m n => eq m n = true) :
    Equivalence fun v w => agree eq v w = true where
  refl := agree_self h.refl
  symm hvw := by rwa [agree_comm fun m n => Bool.eq_iff_iff.2 ⟨h.symm, h.symm⟩]
  trans := @agree_trans eq fun _ _ _ => h.trans

theorem sameNumber_equivalence : Equivalence fun m n => sameNumber m n = true where
  refl n := Double.same_self n.toDouble_ne_nan
  symm hmn := by rwa [sameNumber, Double.same_comm]
  trans := Double.same_trans

theorem sameInState_equivalence : Equivalence fun v w => sameInState v w = true :=
  agree_equivalence sameNumber_equivalence

/-- Looking up the keys of one side is an equivalence of values in order. -/
theorem agreeByKeys_equivalence (h : Equivalence fun m n => eq m n = true) :
    Equivalence fun v w : OrderedValue => agreeByKeys eq v.1 w.1 = true := by
  have hagree : (fun v w : OrderedValue => agreeByKeys eq v.1 w.1 = true) =
      fun v w => agree eq v.1 w.1 = true :=
    funext fun v => funext fun w => by rw [agreeByKeys_eq_agree v.2 w.2]
  rw [hagree]
  exact (agree_equivalence h).comap Subtype.val

-- With a key twice there would be room for another one on the other side.
example :
    let twice : Value := object [("a", null), ("a", null)]
    let other : Value := object [("a", null), ("b", null)]
    agreeByKeys sameNumber twice other = true ∧ agreeByKeys sameNumber other twice = false :=
  ⟨rfl, rfl⟩

/-- Values that are the same may stand for each other in a comparison. -/
theorem sameInState_congr {v' w' : Value} (hv : v.sameInState v' = true)
    (hw : w.sameInState w' = true) : v.sameInState w = v'.sameInState w' := by
  have hsame := sameInState_equivalence
  exact Bool.eq_iff_iff.2 ⟨fun h => hsame.trans (hsame.symm hv) (hsame.trans h hw),
    fun h => hsame.trans hv (hsame.trans h (hsame.symm hw))⟩

/-! ## Inside values that agree -/

section

variable {α β : Type} {r : α → α → Prop} {a b : Option α}

theorem rel_bind {s : β → β → Prop} {f g : α → Option β} (h : Option.Rel r a b)
    (hfg : ∀ x y, r x y → Option.Rel s (f x) (g y)) : Option.Rel s (a.bind f) (b.bind g) := by
  cases h with
  | some hxy => exact hfg _ _ hxy
  | none => exact .none

theorem isSome_eq_of_rel (h : Option.Rel r a b) : a.isSome = b.isSome := by
  cases h with
  | some hxy => rfl
  | none => rfl

theorem any_eq_of_rel {p q : α → Bool} (h : Option.Rel r a b) (hpq : ∀ x y, r x y → p x = q y) :
    a.any p = b.any q := by
  cases h with
  | some hxy => exact hpq _ _ hxy
  | none => rfl

end

theorem rel_find? {xs ys : Fields} (h : agreeFields eq xs ys = true) (key : String) :
    Option.Rel (fun v w => agree eq v w = true) (xs.find? key) (ys.find? key) := by
  induction xs generalizing ys with
  | nil =>
    cases ys with
    | nil => exact .none
    | cons y ys => cases h
  | cons x xs ih =>
    cases ys with
    | nil => cases h
    | cons y ys =>
      rw [agreeFields, Bool.and_eq_true, Bool.and_eq_true, beq_iff_eq] at h
      rw [Fields.find?, Fields.find?, h.1.1]
      split
      · exact .some h.1.2
      · exact ih h.2

theorem rel_getElem? {xs ys : List Value} (h : agreeItems eq xs ys = true) (i : Nat) :
    Option.Rel (fun v w => agree eq v w = true) xs[i]? ys[i]? := by
  induction xs generalizing ys i with
  | nil =>
    cases ys with
    | nil => exact .none
    | cons y ys => cases h
  | cons x xs ih =>
    cases ys with
    | nil => cases h
    | cons y ys =>
      rw [agreeItems, Bool.and_eq_true] at h
      cases i with
      | zero => exact .some h.1
      | succ i => exact ih h.2 i

theorem length_eq_of_agreeItems {xs ys : List Value} (h : agreeItems eq xs ys = true) :
    xs.length = ys.length := by
  induction xs generalizing ys with
  | nil =>
    cases ys with
    | nil => rfl
    | cons y ys => cases h
  | cons x xs ih =>
    cases ys with
    | nil => cases h
    | cons y ys =>
      rw [agreeItems, Bool.and_eq_true] at h
      exact congrArg Nat.succ (ih h.2)

theorem rel_step? (h : agree eq v w = true) (s : Segment) :
    Option.Rel (fun v w => agree eq v w = true) (v.step? s) (w.step? s) := by
  cases v with
  | object xs =>
    cases w with
    | object ys =>
      cases s with
      | key k => exact rel_find? h k
      | index i => exact .none
    | _ => cases h
  | array xs =>
    cases w with
    | array ys =>
      cases s with
      | key k => exact .none
      | index i => exact rel_getElem? h i
    | _ => cases h
  | _ => cases w <;> first | exact .none | cases h

/-- At each path, values that agree have values that agree, or no value. -/
theorem rel_resolve? (h : agree eq v w = true) (path : Path) :
    Option.Rel (fun v w => agree eq v w = true) (v.resolve? path) (w.resolve? path) := by
  induction path generalizing v w with
  | nil => exact .some h
  | cons s path ih =>
    rw [resolve?_cons, resolve?_cons]
    exact rel_bind (rel_step? h s) fun _ _ => ih

/-- Objects are found at the same paths in values that are the same. -/
theorem rel_objectAt? (h : agree eq v w = true) (path : Path) :
    Option.Rel (fun xs ys => agreeFields eq xs ys = true) (v.objectAt? path)
      (w.objectAt? path) := by
  refine rel_bind (rel_resolve? h path) fun v w hvw => ?_
  cases v with
  | object xs =>
    cases w with
    | object ys => exact .some hvw
    | _ => cases hvw
  | _ => cases w <;> first | exact .none | cases hvw

theorem rel_arrayAt? (h : agree eq v w = true) (path : Path) :
    Option.Rel (fun xs ys => agreeItems eq xs ys = true) (v.arrayAt? path) (w.arrayAt? path) := by
  refine rel_bind (rel_resolve? h path) fun v w hvw => ?_
  cases v with
  | array xs =>
    cases w with
    | array ys => exact .some hvw
    | _ => cases hvw
  | _ => cases w <;> first | exact .none | cases hvw

end Value

end LiveMarkup
