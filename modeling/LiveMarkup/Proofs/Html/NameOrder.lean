import LiveMarkup.Html.Token
import LiveMarkup.Proofs.OrderedMap
import Mathlib.Data.List.Perm.Basic
import Mathlib.Data.String.Basic

/-!
# Attributes in the order of their names

If each name is there once, sorting attributes gives the same ones in another order
(`sortAttributes_perm`), and attributes that are in order stay as they are
(`InNameOrder.sortAttributes_eq`).
-/

namespace LiveMarkup

namespace Html

variable {attributes more : List (String × String)} {new e : String × String} {name : String}

/-- The names are in order, each of them once. -/
def InNameOrder (attributes : List (String × String)) : Prop :=
  (attributes.map Prod.fst).Pairwise (· < ·)

instance : Decidable (InNameOrder attributes) := inferInstanceAs (Decidable (List.Pairwise _ _))

theorem inNameOrder_nil : InNameOrder [] := List.Pairwise.nil

theorem inNameOrder_cons_iff :
    InNameOrder (e :: attributes) ↔
      (∀ name ∈ attributes.map Prod.fst, e.1 < name) ∧ InNameOrder attributes :=
  List.pairwise_cons

/-- Names in order are distinct. -/
theorem InNameOrder.distinct (h : InNameOrder attributes) : OrderedMap.Distinct attributes :=
  List.Pairwise.imp ne_of_lt h

/-! ## Inserting -/

theorem mem_map_fst_insertAttribute :
    name ∈ (insertAttribute attributes new).map Prod.fst ↔
      name = new.1 ∨ name ∈ attributes.map Prod.fst := by
  induction attributes with
  | nil => simp [insertAttribute]
  | cons a rest ih =>
    rw [insertAttribute]
    split
    · next he => simp [he]
    · split
      · simp
      · rw [List.map_cons, List.mem_cons, ih, List.map_cons, List.mem_cons, or_left_comm]

/-- An attribute is inserted where the order of names has it, or left out if its name is there. -/
theorem InNameOrder.insertAttribute (h : InNameOrder attributes) (new : String × String) :
    InNameOrder (insertAttribute attributes new) := by
  induction attributes with
  | nil => exact List.pairwise_singleton _ _
  | cons a rest ih =>
    obtain ⟨ha, hrest⟩ := inNameOrder_cons_iff.1 h
    rw [Html.insertAttribute]
    split
    · exact h
    · next hne =>
      split
      · next hlt =>
        refine inNameOrder_cons_iff.2 ⟨fun name hname => ?_, h⟩
        rcases List.mem_cons.1 hname with rfl | hname
        · exact hlt
        · exact hlt.trans (ha name hname)
      · next hge =>
        refine inNameOrder_cons_iff.2 ⟨fun name hname => ?_, ih hrest⟩
        rcases mem_map_fst_insertAttribute.1 hname with rfl | hname
        · exact lt_of_le_of_ne (not_lt.1 hge) hne
        · exact ha name hname

theorem insertAttribute_perm (h : new.1 ∉ attributes.map Prod.fst) :
    (insertAttribute attributes new).Perm (new :: attributes) := by
  induction attributes with
  | nil => exact .refl _
  | cons a rest ih =>
    rw [List.map_cons, List.mem_cons, not_or] at h
    rw [insertAttribute, if_neg (Ne.symm h.1)]
    split
    · exact .refl _
    · exact ((ih h.2).cons a).trans (.swap new a rest)

/-! ## Sorting -/

theorem inNameOrder_foldl_insertAttribute (h : InNameOrder attributes)
    (more : List (String × String)) : InNameOrder (more.foldl insertAttribute attributes) := by
  induction more generalizing attributes with
  | nil => exact h
  | cons e more ih => exact ih (h.insertAttribute e)

/-- Sorted attributes are in the order of their names, wherever they come from. -/
theorem inNameOrder_sortAttributes (attributes : List (String × String)) :
    InNameOrder (sortAttributes attributes) :=
  inNameOrder_foldl_insertAttribute inNameOrder_nil attributes

theorem foldl_insertAttribute_perm (h : OrderedMap.Distinct (more ++ attributes)) :
    (more.foldl insertAttribute attributes).Perm (more ++ attributes) := by
  induction more generalizing attributes with
  | nil => exact .refl _
  | cons e more ih =>
    have hmiddle : (more ++ e :: attributes).Perm (e :: (more ++ attributes)) := List.perm_middle
    have hdistinct := ((hmiddle.map Prod.fst).nodup_iff).2 h
    have hnew : e.1 ∉ attributes.map Prod.fst := by
      rw [List.map_append] at hdistinct
      exact (List.nodup_cons.1 hdistinct.of_append_right).1
    have hinsert := (insertAttribute_perm hnew).append_left more
    exact (ih (((hinsert.map Prod.fst).nodup_iff).2 hdistinct)).trans (hinsert.trans hmiddle)

/-- Sorting changes nothing but the order. -/
theorem sortAttributes_perm (h : OrderedMap.Distinct attributes) :
    (sortAttributes attributes).Perm attributes := by
  have hperm : (sortAttributes attributes).Perm (attributes ++ []) :=
    foldl_insertAttribute_perm (by rwa [List.append_nil])
  rwa [List.append_nil] at hperm

/-- Sorting does not change what is found under a name. -/
theorem find?_sortAttributes (h : OrderedMap.Distinct attributes) (name : String) :
    OrderedMap.find? (sortAttributes attributes) name = OrderedMap.find? attributes name := by
  refine Option.ext fun value => ?_
  rw [(inNameOrder_sortAttributes attributes).distinct.find?_eq_some_iff, h.find?_eq_some_iff,
    (sortAttributes_perm h).mem_iff]

/-- Attributes that are in order stay as they are. -/
theorem InNameOrder.sortAttributes_eq (h : InNameOrder attributes) :
    sortAttributes attributes = attributes := by
  refine List.Perm.eq_of_pairwise (fun a b _ _ hab hba => ?_)
    (List.pairwise_map.1 (inNameOrder_sortAttributes attributes)) (List.pairwise_map.1 h)
    (sortAttributes_perm h.distinct)
  exact absurd hba (lt_asymm hab)

/-! ## Tokens -/

/-- The attributes of a start tag are in order. -/
def Token.InNameOrder : Token → Prop
  | .startTag _ attributes _ => Html.InNameOrder attributes
  | .endTag _ => True
  | .text _ => True

end Html

end LiveMarkup
