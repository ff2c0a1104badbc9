import LiveMarkup.Json.Value

/-!
# The fields of an object

What is found under a key after an operation on fields (`Fields.find?_insert`, `Fields.find?_merge`,
`Fields.find?_filter`). Fields are kept in the order of their keys (`Fields.InOrder`), and such
fields are determined by what is found in them (`Fields.InOrder.ext`).
-/

namespace LiveMarkup

namespace Fields

variable {fields other entries : Fields} {key : String}

theorem find?_eq_none_iff : fields.find? key = none ↔ key ∉ fields.keys := by
  induction fields with
  | nil => simp [find?, keys]
  | cons entry rest ih =>
    obtain ⟨k, v⟩ := entry
    rw [find?, keys, List.map_cons, List.mem_cons, not_or]
    split
    · next h => simp [h]
    · next h => exact ih.trans ⟨fun hm => ⟨Ne.symm h, hm⟩, And.right⟩

theorem contains_eq_true_iff : fields.contains key = true ↔ key ∈ fields.keys := by
  rw [contains, Option.isSome_iff_ne_none, ne_eq, find?_eq_none_iff, Decidable.not_not]

/-- What is inserted is found under its key, and nothing else changes. -/
theorem find?_insert (fields : Fields) (key : String) (value : Value) (k : String) :
    (fields.insert key value).find? k = if key = k then some value else fields.find? k := by
  induction fields with
  | nil => simp [insert, find?]
  | cons entry rest ih =>
    obtain ⟨l, v⟩ := entry
    rw [insert]
    split
    · next h =>
      subst h
      rw [find?, find?]
      split <;> rfl
    · next h =>
      split
      · rw [find?]
      · rw [find?, find?, ih]
        split
        · next hl => rw [if_neg (fun e => h (hl.trans e.symm))]
        · rfl

theorem length_erase {v : Value} (h : fields.find? key = some v) :
    (fields.erase key).length + 1 = fields.length := by
  induction fields with
  | nil => cases h
  | cons entry rest ih =>
    obtain ⟨k, v'⟩ := entry
    rw [find?] at h
    rw [erase]
    split at h
    · next he => rw [if_pos he, List.length_cons]
    · next hne => rw [if_neg hne, List.length_cons, List.length_cons, ih h]

theorem erase_eq_self (h : fields.find? key = none) : fields.erase key = fields := by
  induction fields with
  | nil => rfl
  | cons entry rest ih =>
    obtain ⟨k, v⟩ := entry
    rw [find?] at h
    rw [erase]
    split at h
    · cases h
    · next hne => rw [if_neg hne, ih h]

theorem erase_sublist (fields : Fields) (key : String) : (fields.erase key).Sublist fields := by
  induction fields with
  | nil => exact .slnil
  | cons entry rest ih =>
    rw [erase]
    split
    · exact List.sublist_cons_self _ _
    · exact ih.cons_cons entry

theorem find?_filter (p : String → Bool) (fields : Fields) (key : String) :
    find? (fields.filter fun entry => p entry.1) key =
      if p key then fields.find? key else none := by
  induction fields with
  | nil => simp [find?]
  | cons entry rest ih =>
    obtain ⟨k, v⟩ := entry
    rw [find?]
    rw [List.filter_cons]
    split
    · next hk =>
      rw [find?, ih]
      split
      · next h => rw [← h, if_pos hk]
      · rfl
    · next hk =>
      rw [ih]
      split
      · next hp => rw [if_neg fun h : k = key => hk (h ▸ hp)]
      · rfl

/-! ## Order -/

/-- The keys are in order, each of them once. -/
def InOrder (fields : Fields) : Prop := fields.keys.Pairwise (· < ·)

instance : Decidable fields.InOrder := inferInstanceAs (Decidable (List.Pairwise _ _))

theorem inOrder_nil : InOrder [] := List.Pairwise.nil

theorem inOrder_cons_iff {value : Value} :
    InOrder ((key, value) :: fields) ↔ (∀ k ∈ fields.keys, key < k) ∧ fields.InOrder :=
  List.pairwise_cons

theorem InOrder.filter (h : fields.InOrder) (p : String × Value → Bool) :
    InOrder (List.filter p fields) :=
  h.sublist (List.filter_sublist.map _)

theorem InOrder.erase (h : fields.InOrder) (key : String) : (fields.erase key).InOrder :=
  h.sublist ((erase_sublist fields key).map _)

/-- In order there is no second field of a key that could come to light. -/
theorem InOrder.find?_erase (h : fields.InOrder) (key k : String) :
    (fields.erase key).find? k = if key = k then none else fields.find? k := by
  induction fields with
  | nil => simp [Fields.erase, find?]
  | cons entry rest ih =>
    obtain ⟨l, v⟩ := entry
    obtain ⟨hl, hrest⟩ := inOrder_cons_iff.1 h
    rw [Fields.erase, find?]
    split
    · next he =>
      subst he
      split
      · next hk => exact find?_eq_none_iff.2 fun hm => String.ne_of_lt (hl k hm) hk
      · rfl
    · next hne =>
      rw [find?, ih hrest]
      split
      · next hk => rw [if_neg fun he => hne (hk.trans he.symm)]
      · rfl

theorem mem_keys_insert {value : Value} {k : String} :
    k ∈ (fields.insert key value).keys ↔ k = key ∨ k ∈ fields.keys := by
  rw [← contains_eq_true_iff, ← contains_eq_true_iff, contains, contains, find?_insert]
  split
  · next h => simp [h]
  · next h => simp [Ne.symm h]

/-- A field is inserted where the order of keys has it. -/
theorem InOrder.insert (h : fields.InOrder) (key : String) (value : Value) :
    (fields.insert key value).InOrder := by
  induction fields with
  | nil => exact List.pairwise_singleton _ _
  | cons entry rest ih =>
    obtain ⟨k, v⟩ := entry
    obtain ⟨hk, hrest⟩ := inOrder_cons_iff.1 h
    rw [Fields.insert]
    split
    · next he => exact inOrder_cons_iff.2 ⟨he ▸ hk, hrest⟩
    · next hne =>
      split
      · next hlt =>
        refine inOrder_cons_iff.2 ⟨fun l hl => ?_, h⟩
        rcases List.mem_cons.1 hl with rfl | hl
        · exact hlt
        · exact String.lt_trans hlt (hk l hl)
      · next hge =>
        refine inOrder_cons_iff.2 ⟨fun l hl => ?_, ih hrest⟩
        rcases mem_keys_insert.1 hl with rfl | hl
        · exact Std.lt_of_le_of_ne (String.not_lt.1 hge) hne
        · exact hk l hl

theorem InOrder.merge (h : fields.InOrder) (entries : Fields) : (fields.merge entries).InOrder := by
  induction entries generalizing fields with
  | nil => exact h
  | cons entry rest ih => exact ih (h.insert entry.1 entry.2)

/-- Entries in order are found before the old fields. -/
theorem find?_merge (h : entries.InOrder) (fields : Fields) (key : String) :
    (fields.merge entries).find? key = (entries.find? key).or (fields.find? key) := by
  induction entries generalizing fields with
  | nil => rfl
  | cons entry rest ih =>
    obtain ⟨k, v⟩ := entry
    obtain ⟨hk, hrest⟩ := inOrder_cons_iff.1 h
    change (merge (insert fields k v) rest).find? key = _
    rw [ih hrest, find?_insert, find?]
    split
    · next he =>
      have hnone : find? rest key = none :=
        find?_eq_none_iff.2 fun hmem => String.lt_irrefl _ (he ▸ hk key hmem)
      rw [hnone, Option.none_or, Option.some_or]
    · rfl

/-- Fields in order are determined by what is found under each key. -/
theorem InOrder.ext (h : fields.InOrder) (h' : other.InOrder)
    (he : ∀ key, fields.find? key = other.find? key) : fields = other := by
  have hkeys (k : String) : k ∈ fields.keys ↔ k ∈ other.keys := by
    rw [← contains_eq_true_iff, ← contains_eq_true_iff, contains, contains, he]
  induction fields generalizing other with
  | nil =>
    cases other with
    | nil => rfl
    | cons entry rest => exact absurd ((hkeys entry.1).2 List.mem_cons_self) List.not_mem_nil
  | cons entry rest ih =>
    cases other with
    | nil => exact absurd ((hkeys entry.1).1 List.mem_cons_self) List.not_mem_nil
    | cons entry' rest' =>
      obtain ⟨k, v⟩ := entry
      obtain ⟨k', v'⟩ := entry'
      obtain ⟨hk, hrest⟩ := inOrder_cons_iff.1 h
      obtain ⟨hk', hrest'⟩ := inOrder_cons_iff.1 h'
      have hkk : k = k' := by
        rcases List.mem_cons.1 ((hkeys k).1 List.mem_cons_self) with hkk | hmem
        · exact hkk
        rcases List.mem_cons.1 ((hkeys k').2 List.mem_cons_self) with hkk | hmem'
        · exact hkk.symm
        · exact absurd (String.lt_trans (hk k' hmem') (hk' k hmem)) (String.lt_irrefl _)
      subst hkk
      have hv := he k
      rw [find?, if_pos rfl, find?, if_pos rfl] at hv
      obtain rfl := Option.some.inj hv
      have hfind (key : String) : find? rest key = find? rest' key := by
        by_cases hkey : k = key
        · subst hkey
          rw [find?_eq_none_iff.2 fun hm => String.lt_irrefl _ (hk k hm),
            find?_eq_none_iff.2 fun hm => String.lt_irrefl _ (hk' k hm)]
        · have := he key
          rwa [find?, if_neg hkey, find?, if_neg hkey] at this
      rw [ih hrest hrest' hfind fun key => by
        rw [← contains_eq_true_iff, ← contains_eq_true_iff, contains, contains, hfind]]

/-- Each field of an object in order is the one that is found under its key. -/
theorem InOrder.find?_of_mem (h : fields.InOrder) {value : Value} (hmem : (key, value) ∈ fields) :
    fields.find? key = some value := by
  induction fields with
  | nil => cases hmem
  | cons entry rest ih =>
    obtain ⟨k, v⟩ := entry
    obtain ⟨hk, hrest⟩ := inOrder_cons_iff.1 h
    rw [find?]
    rcases List.mem_cons.1 hmem with he | hmem
    · obtain ⟨rfl, rfl⟩ := Prod.mk.inj he
      rw [if_pos rfl]
    · have hlt : k < key := hk key (List.mem_map_of_mem hmem)
      rw [if_neg (String.ne_of_lt hlt)]
      exact ih hrest hmem

/-- Fields in order stay as they are when they are entered one after the other. -/
theorem InOrder.ofList_eq (h : fields.InOrder) : ofList fields = fields := by
  refine (inOrder_nil.merge fields).ext h fun key => ?_
  rw [find?_merge h]
  exact Option.or_none

/-- Among merged fields, those that were put in are as they were. -/
theorem InOrder.filter_merge (h : fields.InOrder) (hentries : entries.InOrder) :
    List.filter (fun entry => entries.contains entry.1) (fields.merge entries) = entries := by
  refine ((h.merge entries).filter _).ext hentries fun key => ?_
  rw [find?_filter, find?_merge hentries, contains]
  cases entries.find? key <;> rfl

end Fields

end LiveMarkup
