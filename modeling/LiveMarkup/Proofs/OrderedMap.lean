import LiveMarkup.OrderedMap
import Mathlib.Data.List.Nodup

/-!
# Bringing one map to another

`OrderedMap.align` brings a map to the entries of a wanted one, key by key: entries with other keys
are erased, and what differs is put. If both maps have each key once, the result has the entries of
the wanted map (`find?_align`), though not always in its order.
-/

namespace LiveMarkup

namespace OrderedMap

variable {κ α : Type}

/-- Each key is there once. -/
def Distinct (m : OrderedMap κ α) : Prop := (m.map Prod.fst).Nodup

variable [DecidableEq κ] {m wanted : OrderedMap κ α} {key other : κ} {value : α}

theorem find?_eq_none_iff : find? m key = none ↔ key ∉ m.map Prod.fst := by
  induction m with
  | nil => simp [find?]
  | cons entry rest ih =>
    obtain ⟨k, v⟩ := entry
    rw [find?, List.map_cons, List.mem_cons, not_or]
    split
    · next h => simp [h]
    · next h => simp [ih, Ne.symm h]

theorem mem_of_find? (h : find? m key = some value) : (key, value) ∈ m := by
  induction m with
  | nil => cases h
  | cons entry rest ih =>
    obtain ⟨k, v⟩ := entry
    rw [find?] at h
    split at h
    · next hk =>
      cases h
      rw [hk]
      exact List.mem_cons_self
    · exact List.mem_cons_of_mem _ (ih h)

theorem Distinct.find?_eq_some_iff (hm : Distinct m) :
    find? m key = some value ↔ (key, value) ∈ m := by
  refine ⟨mem_of_find?, fun h => ?_⟩
  induction m with
  | nil => cases h
  | cons entry rest ih =>
    obtain ⟨k, v⟩ := entry
    obtain ⟨hk, hrest⟩ := List.nodup_cons.1 hm
    rw [find?]
    rcases List.mem_cons.1 h with h | h
    · cases h
      rw [if_pos rfl]
    · have hmem : key ∈ rest.map Prod.fst := List.mem_map_of_mem (f := Prod.fst) h
      rw [if_neg fun he : k = key => hk (he ▸ hmem), ih hrest h]

/-- The entries under a key are the value that is found there. -/
theorem Distinct.filter_fst_eq (hm : Distinct m) (key : κ) :
    m.filter (fun e => e.1 = key) = (find? m key).toList.map (Prod.mk key) := by
  induction m with
  | nil => rfl
  | cons entry rest ih =>
    obtain ⟨k, v⟩ := entry
    obtain ⟨hk, hrest⟩ := List.nodup_cons.1 hm
    rw [find?]
    split
    · next h =>
      subst h
      rw [List.filter_cons_of_pos (by simp), ih hrest, find?_eq_none_iff.2 hk]
      rfl
    · next h => rw [List.filter_cons_of_neg (by simpa using h), ih hrest]

theorem contains_of_mem {entry : κ × α} (h : entry ∈ m) : contains m entry.1 = true := by
  rw [contains, Option.isSome_iff_ne_none, ne_eq, find?_eq_none_iff, not_not]
  exact List.mem_map_of_mem h

/-- What is erased is found no more. If a key could come twice, the second entry would come to
light. -/
theorem find?_erase (hm : Distinct m) :
    find? (erase m key) other = if key = other then none else find? m other := by
  induction m with
  | nil => simp [erase, find?]
  | cons entry rest ih =>
    obtain ⟨k, v⟩ := entry
    obtain ⟨hk, hrest⟩ := List.nodup_cons.1 hm
    rw [erase]
    split
    · next h =>
      subst h
      split
      · next h => rw [← h, find?_eq_none_iff.2 hk]
      · next h => rw [find?, if_neg h]
    · next h =>
      rw [find?, find?, ih hrest]
      split
      · next hko => rw [if_neg (fun e => h (hko.trans e.symm))]
      · rfl

theorem erase_sublist (m : OrderedMap κ α) (key : κ) : (erase m key).Sublist m := by
  induction m with
  | nil => exact .slnil
  | cons entry rest ih =>
    rw [erase]
    split
    · exact List.sublist_cons_self _ _
    · exact ih.cons_cons _

theorem map_fst_erase_sublist (m : OrderedMap κ α) (key : κ) :
    ((erase m key).map Prod.fst).Sublist (m.map Prod.fst) :=
  (erase_sublist m key).map _

theorem Distinct.erase (hm : Distinct m) (key : κ) : Distinct (m.erase key) :=
  hm.sublist (map_fst_erase_sublist m key)

theorem mem_map_fst_put : other ∈ (put m key value).map Prod.fst ↔
    other = key ∨ other ∈ m.map Prod.fst := by
  rw [← not_iff_not, not_or, ← find?_eq_none_iff, ← find?_eq_none_iff, find?_put]
  split
  · next h => simp [h]
  · next h => simp [Ne.symm h]

theorem length_put_of_mem (h : key ∈ m.map Prod.fst) : (put m key value).length = m.length := by
  induction m with
  | nil => cases h
  | cons entry rest ih =>
    obtain ⟨k, v⟩ := entry
    rw [put]
    split
    · rfl
    · next hk =>
      rw [List.map_cons, List.mem_cons] at h
      rw [List.length_cons, List.length_cons, ih (h.resolve_left fun he => hk he.symm)]

/-- Whatever holds of the entries and of a new one holds of them together. -/
theorem eq_or_mem_of_mem_put {entry : κ × α} (h : entry ∈ put m key value) :
    entry = (key, value) ∨ entry ∈ m := by
  induction m with
  | nil => exact .inl (List.mem_singleton.1 h)
  | cons first rest ih =>
    obtain ⟨k, v⟩ := first
    rw [OrderedMap.put] at h
    split at h
    · rcases List.mem_cons.1 h with h | h
      · exact .inl h
      · exact .inr (List.mem_cons_of_mem _ h)
    · rcases List.mem_cons.1 h with h | h
      · exact .inr (List.mem_cons.2 (.inl h))
      · exact (ih h).imp_right (List.mem_cons_of_mem _)

theorem Distinct.put (hm : Distinct m) (key : κ) (value : α) : Distinct (m.put key value) := by
  induction m with
  | nil => exact List.nodup_singleton key
  | cons entry rest ih =>
    obtain ⟨k, v⟩ := entry
    obtain ⟨hk, hrest⟩ := List.nodup_cons.1 hm
    rw [OrderedMap.put]
    split
    · next h =>
      subst h
      exact List.nodup_cons.2 ⟨hk, hrest⟩
    · next h =>
      refine List.nodup_cons.2 ⟨?_, ih hrest⟩
      rw [mem_map_fst_put, not_or]
      exact ⟨h, hk⟩

/-- A new key comes last. -/
theorem put_eq_append (h : key ∉ m.map Prod.fst) (value : α) :
    put m key value = m ++ [(key, value)] := by
  induction m with
  | nil => rfl
  | cons entry rest ih =>
    rw [List.map_cons, List.mem_cons, not_or] at h
    rw [put, if_neg (Ne.symm h.1), ih h.2, List.cons_append]

/-- Entries with new keys are put behind the others in their order. -/
theorem foldl_put_eq_append {entries : OrderedMap κ α} (h : Distinct (m ++ entries)) :
    entries.foldl (fun m e => put m e.1 e.2) m = m ++ entries := by
  induction entries generalizing m with
  | nil => exact (List.append_nil m).symm
  | cons e rest ih =>
    have hkey : e.1 ∉ m.map Prod.fst := by
      rw [Distinct, List.map_append, List.map_cons] at h
      exact fun hm => List.disjoint_of_nodup_append h hm List.mem_cons_self
    have hsplit : m ++ e :: rest = (m ++ [(e.1, e.2)]) ++ rest := by simp
    rw [List.foldl_cons, put_eq_append hkey, ih (hsplit ▸ h), hsplit]

/-! ## Aligning -/

/-- Erases a key unless it is wanted. -/
def eraseUnwanted (wanted m : OrderedMap κ α) (entry : κ × α) : OrderedMap κ α :=
  if contains wanted entry.1 then m else erase m entry.1

/-- Puts an entry unless it is there. -/
def putMissing [DecidableEq α] (m : OrderedMap κ α) (entry : κ × α) : OrderedMap κ α :=
  if find? m entry.1 = some entry.2 then m else put m entry.1 entry.2

/-- The map brought to a wanted one. -/
def align [DecidableEq α] (m wanted : OrderedMap κ α) : OrderedMap κ α :=
  wanted.foldl putMissing (m.foldl (eraseUnwanted wanted) m)

theorem Distinct.foldl_eraseUnwanted (hm : Distinct m) (entries : OrderedMap κ α) :
    Distinct (entries.foldl (eraseUnwanted wanted) m) := by
  induction entries generalizing m with
  | nil => exact hm
  | cons entry rest ih =>
    refine ih ?_
    rw [eraseUnwanted]
    split
    · exact hm
    · exact hm.erase _

theorem find?_foldl_eraseUnwanted (hm : Distinct m) (entries : OrderedMap κ α) :
    find? (entries.foldl (eraseUnwanted wanted) m) key =
      if key ∈ entries.map Prod.fst ∧ contains wanted key = false then none else find? m key := by
  induction entries generalizing m with
  | nil => simp
  | cons entry rest ih =>
    rw [List.foldl_cons, List.map_cons, eraseUnwanted]
    split
    · next hw =>
      rw [ih hm]
      by_cases hk : key = entry.1
      · simp [hk, hw]
      · simp only [List.mem_cons, hk, false_or]
    · next hw =>
      rw [ih (hm.erase _), find?_erase hm]
      by_cases hk : key = entry.1
      · simp [hk, hw]
      · simp only [List.mem_cons, hk, false_or, if_neg (Ne.symm hk)]

/-- What is left after erasing are the entries with wanted keys. -/
theorem find?_foldl_eraseUnwanted_self (hm : Distinct m) :
    find? (m.foldl (eraseUnwanted wanted) m) key =
      if contains wanted key then find? m key else none := by
  rw [find?_foldl_eraseUnwanted hm]
  cases hw : contains wanted key with
  | true => simp
  | false =>
    by_cases hk : key ∈ m.map Prod.fst
    · simp [hk]
    · simp [find?_eq_none_iff.2 hk]

section

variable [DecidableEq α]

theorem find?_putMissing (m : OrderedMap κ α) (entry : κ × α) :
    find? (putMissing m entry) key = if entry.1 = key then some entry.2 else find? m key := by
  rw [putMissing]
  split
  · next h =>
    split
    · next hk => rw [← hk, h]
    · rfl
  · rw [find?_put]

theorem Distinct.foldl_putMissing (hm : Distinct m) (entries : OrderedMap κ α) :
    Distinct (entries.foldl putMissing m) := by
  induction entries generalizing m with
  | nil => exact hm
  | cons entry rest ih =>
    refine ih ?_
    rw [putMissing]
    split
    · exact hm
    · exact hm.put _ _

/-- Entries that are put are found, and others stay. -/
theorem find?_foldl_putMissing {entries : OrderedMap κ α} (he : Distinct entries) :
    find? (entries.foldl putMissing m) key = (find? entries key).or (find? m key) := by
  induction entries generalizing m with
  | nil => rfl
  | cons entry rest ih =>
    obtain ⟨k, v⟩ := entry
    obtain ⟨hk, hrest⟩ := List.nodup_cons.1 he
    rw [List.foldl_cons, ih hrest, find?_putMissing, find?]
    split
    · next h =>
      subst h
      rw [find?_eq_none_iff.2 hk]
      rfl
    · rfl

/-- What is found after aligning is what is wanted. -/
theorem find?_align (hm : Distinct m) (hw : Distinct wanted) (key : κ) :
    find? (align m wanted) key = find? wanted key := by
  rw [align, find?_foldl_putMissing hw, find?_foldl_eraseUnwanted_self hm]
  cases h : find? wanted key with
  | none => simp [contains, h]
  | some v => rfl

theorem Distinct.align (hm : Distinct m) (wanted : OrderedMap κ α) : Distinct (m.align wanted) :=
  (hm.foldl_eraseUnwanted m).foldl_putMissing wanted

end

end OrderedMap

end LiveMarkup
