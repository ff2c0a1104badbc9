import LiveMarkup.Proofs.Json.Agreement
import LiveMarkup.Json.Fields
import LiveMarkup.Proofs.Number.Nearest
import LiveMarkup.State.Path
import Mathlib.Data.Finset.Card
import Mathlib.Data.String.Basic

/-!
# Writing entries over an object

Entries are written over an object one after the other, and each of them only if its value does not
count as the same as the one that is there (`Fields.putAll`). Afterwards the object agrees with the
merged one under every key (`Fields.agreesAt_putAll`), though it need not be equal to it. If some
keys are taken away first, as many fields are taken away and written as the two objects differ in
(`Fields.card_differing`).
-/

namespace LiveMarkup

namespace Value

theorem sameInState_self (v : Value) : v.sameInState v = true :=
  agree_self (fun n => Double.same_self n.toDouble_ne_nan) v

end Value

namespace Fields

variable {fields old new entries rest : Fields} {key k : String} {v : Value}

/-! ## Objects that agree -/

/-- Two objects agree under a key: none of them has it, or their values count as the same. -/
def agreesAt (old new : Fields) (key : String) : Bool :=
  match old.find? key, new.find? key with
  | none, none => true
  | some v, some v' => v.sameInState v'
  | _, _ => false

/-- The keys under which two objects do not agree. -/
def differing (old new : Fields) : Finset String :=
  (old.keys ++ new.keys).toFinset.filter fun key => old.agreesAt new key = false

theorem agreesAt_of_eq (h : old.find? key = new.find? key) : old.agreesAt new key = true := by
  rw [agreesAt, h]
  cases new.find? key with
  | none => rfl
  | some v => exact v.sameInState_self

theorem agreesAt_of_some (h : new.find? key = some v) :
    old.agreesAt new key = (old.find? key).any fun now => now.sameInState v := by
  rw [agreesAt, h]
  cases old.find? key <;> rfl

theorem contains_eq_of_agreesAt (h : old.agreesAt new key = true) :
    old.contains key = new.contains key := by
  rw [agreesAt] at h
  rw [contains, contains]
  cases hold : old.find? key with
  | none =>
    cases hnew : new.find? key with
    | none => rfl
    | some v => simp [hold, hnew] at h
  | some v =>
    cases hnew : new.find? key with
    | none => simp [hold, hnew] at h
    | some v' => rfl

theorem mem_differing : key ∈ old.differing new ↔ old.agreesAt new key = false := by
  rw [differing, Finset.mem_filter, List.mem_toFinset, List.mem_append, and_iff_right_iff_imp]
  intro h
  by_contra hnone
  rw [not_or, ← find?_eq_none_iff, ← find?_eq_none_iff] at hnone
  rw [agreesAt_of_eq (hnone.1.trans hnone.2.symm)] at h
  cases h

/-! ## Writing -/

/-- Writes a value under a key, unless it counts as the same as the one that is there. -/
def put (fields : Fields) (key : String) (v : Value) : Fields :=
  if (fields.find? key).any fun now => now.sameInState v then fields else fields.insert key v

/-- Writes entries one after the other. -/
def putAll (fields entries : Fields) : Fields :=
  entries.foldl (fun fields entry => fields.put entry.1 entry.2) fields

/-- The entries whose values do not count as the same as those that are there. -/
def changing (fields entries : Fields) : Fields :=
  entries.filter fun entry => !(fields.find? entry.1).any fun now => now.sameInState entry.2

theorem find?_put_of_ne (h : key ≠ k) (v : Value) :
    (fields.put key v).find? k = fields.find? k := by
  rw [put]
  split
  · rfl
  · rw [find?_insert, if_neg h]

theorem any_find?_put (fields : Fields) (key : String) (v : Value) :
    ((fields.put key v).find? key).any (fun now => now.sameInState v) = true := by
  rw [put]
  split
  · next hsame => exact hsame
  · rw [find?_insert, if_pos rfl]
    exact v.sameInState_self

theorem changing_put (h : key ∉ rest.keys) (v : Value) :
    (fields.put key v).changing rest = fields.changing rest := by
  refine List.filter_congr fun entry hentry => ?_
  have hne : key ≠ entry.1 := by
    rintro rfl
    exact h (List.mem_map_of_mem hentry)
  rw [find?_put_of_ne hne]

theorem find?_putAll_of_notMem (h : key ∉ entries.keys) :
    (fields.putAll entries).find? key = fields.find? key := by
  induction entries generalizing fields with
  | nil => rfl
  | cons entry rest ih =>
    rw [keys, List.map_cons, List.mem_cons, not_or] at h
    change ((fields.put entry.1 entry.2).putAll rest).find? key = _
    rw [ih h.2, find?_put_of_ne (Ne.symm h.1)]

theorem any_find?_putAll (h : entries.InOrder) (hkey : entries.find? key = some v) :
    ((fields.putAll entries).find? key).any (fun now => now.sameInState v) = true := by
  induction entries generalizing fields with
  | nil => cases hkey
  | cons entry rest ih =>
    obtain ⟨k, v'⟩ := entry
    obtain ⟨hk, hrest⟩ := inOrder_cons_iff.1 h
    change (((fields.put k v').putAll rest).find? key).any _ = true
    rw [find?] at hkey
    split at hkey
    · next he =>
      obtain rfl := Option.some.inj hkey
      subst he
      rw [find?_putAll_of_notMem fun hmem => lt_irrefl _ (hk k hmem)]
      exact any_find?_put fields k v'
    · exact ih hrest hkey

/-- What is written agrees with what is merged. -/
theorem agreesAt_putAll (h : entries.InOrder) (fields : Fields) (key : String) :
    (fields.putAll entries).agreesAt (fields.merge entries) key = true := by
  cases hkey : entries.find? key with
  | none =>
    refine agreesAt_of_eq ?_
    rw [find?_putAll_of_notMem (find?_eq_none_iff.1 hkey), find?_merge h, hkey, Option.none_or]
  | some v =>
    rw [agreesAt_of_some (by rw [find?_merge h, hkey, Option.some_or])]
    exact any_find?_putAll h hkey

/-! ## Taking keys away -/

/-- The fields whose keys are kept. -/
def keep (kept : String → Bool) (fields : Fields) : Fields :=
  fields.filter fun entry => kept entry.1

theorem find?_keep (kept : String → Bool) (fields : Fields) (key : String) :
    (fields.keep kept).find? key = if kept key then fields.find? key else none :=
  find?_filter kept fields key

theorem InOrder.keep (h : fields.InOrder) (kept : String → Bool) : (fields.keep kept).InOrder :=
  h.filter _

theorem keep_of_forall {kept : String → Bool} (h : ∀ key ∈ fields.keys, kept key = true) :
    fields.keep kept = fields :=
  List.filter_eq_self.2 fun _ hentry => h _ (List.mem_map_of_mem hentry)

theorem InOrder.keep_erase (h : fields.InOrder) (key : String) (kept : String → Bool) :
    (fields.erase key).keep kept = fields.keep fun k => k != key && kept k := by
  refine ((h.erase key).keep _).ext (h.keep _) fun k => ?_
  rw [find?_keep, find?_keep, h.find?_erase]
  by_cases he : key = k
  · simp [he]
  · simp [he, Ne.symm he]

/-- What is not to be kept is all that is taken away. -/
theorem keep_notMem_filter (fields : Fields) (kept : String → Bool) :
    (fields.keep fun key => key ∉ fields.keys.filter fun key => !kept key) = fields.keep kept := by
  refine List.filter_congr fun entry hentry => ?_
  have hkey : entry.1 ∈ fields.keys := List.mem_map_of_mem hentry
  simp [hkey]

/-- To keep what is in an object and merge the object is to replace everything by it. -/
theorem InOrder.merge_keep (h : old.InOrder) (hnew : new.InOrder) :
    (old.keep new.contains).merge new = new := by
  refine ((h.keep _).merge new).ext hnew fun key => ?_
  rw [find?_merge hnew, find?_keep, contains]
  cases new.find? key <;> rfl

/-! ## Counting -/

theorem InOrder.nodup_keys (h : fields.InOrder) : fields.keys.Nodup := h.imp ne_of_lt

theorem mem_keys_changing (h : entries.InOrder) :
    key ∈ (fields.changing entries).keys ↔ ∃ v, entries.find? key = some v ∧
      (fields.find? key).any (fun now => now.sameInState v) = false := by
  rw [keys, List.mem_map]
  constructor
  · rintro ⟨⟨k, v⟩, hmem, rfl⟩
    obtain ⟨hmem, hnew⟩ := List.mem_filter.1 hmem
    exact ⟨v, h.find?_of_mem hmem, by simpa using hnew⟩
  · rintro ⟨v, hfind, hnew⟩
    exact ⟨(key, v), List.mem_filter.2 ⟨mem_of_find? hfind, by simpa using hnew⟩, rfl⟩

section

variable {kept : String → Bool} (hentries : entries.InOrder)
  (hkept : ∀ key, entries.contains key = true → kept key = true)

include hentries hkept

/-- If only some keys are kept and entries with such keys are written, what differs afterwards has
been taken away or written. -/
theorem mem_differing_merge_keep : key ∈ old.differing ((old.keep kept).merge entries) ↔
    key ∈ (old.keys.filter fun key => !kept key) ∨
      key ∈ ((old.keep kept).changing entries).keys := by
  have hbase := find?_keep kept old key
  have hmade := find?_merge hentries (old.keep kept) key
  rw [mem_differing, mem_keys_changing hentries, List.mem_filter, ← contains_eq_true_iff]
  cases hkey : kept key with
  | true =>
    rw [hkey, if_pos rfl] at hbase
    rw [hbase] at hmade ⊢
    cases hfind : entries.find? key with
    | none =>
      rw [hfind, Option.none_or] at hmade
      simp [agreesAt_of_eq hmade.symm]
    | some v =>
      rw [hfind, Option.some_or] at hmade
      simp [agreesAt_of_some hmade]
  | false =>
    have hnone : entries.find? key = none := by
      have hout := mt (hkept key) (by rw [hkey]; exact Bool.false_ne_true)
      rwa [contains, Option.not_isSome_iff_eq_none] at hout
    rw [hkey, if_neg Bool.false_ne_true] at hbase
    rw [hnone, hbase, Option.none_or] at hmade
    rw [hnone, agreesAt, hmade, contains]
    cases old.find? key <;> simp

/-- The keys under which the objects differ are taken away or written once each. -/
theorem card_differing (h : old.InOrder) :
    (old.differing ((old.keep kept).merge entries)).card =
      (old.keys.filter fun key => !kept key).length +
        ((old.keep kept).changing entries).length := by
  have hnodup : ((old.keys.filter fun key => !kept key) ++
      ((old.keep kept).changing entries).keys).Nodup := by
    refine List.nodup_append'.2 ⟨h.nodup_keys.filter _, (hentries.filter _).nodup_keys, ?_⟩
    intro key htaken hwritten
    obtain ⟨v, hfind, -⟩ := (mem_keys_changing hentries).1 hwritten
    have hin := hkept key (by rw [contains, hfind, Option.isSome_some])
    simp [hin] at htaken
  have hset : old.differing ((old.keep kept).merge entries) =
      ((old.keys.filter fun key => !kept key) ++
        ((old.keep kept).changing entries).keys).toFinset := by
    ext key
    rw [mem_differing_merge_keep hentries hkept, List.mem_toFinset, List.mem_append]
  rw [hset, List.toFinset_card_of_nodup hnodup, List.length_append, keys, keys, List.length_map]

end

end Fields

end LiveMarkup
