import LiveMarkup.Text.Search

/-!
# Occurrences of a mark

What `stripStart?` and `splitOnce?` find is a prefix and the first occurrence of a mark.

* `stripStart?_eq_none_iff` and `splitOnce?_eq_none_iff` say when nothing is found.
* `splitOnce?_append` passes over a text in which no occurrence of the mark begins, and
  `splitOnce?_append_of_notMem` is the case of a text without the first character of the mark.
-/

namespace LiveMarkup

variable {mark text start rest : List Char} {c : Char}

theorem stripStart?_eq_some_iff : stripStart? start text = some rest ↔ text = start ++ rest := by
  constructor
  · exact eq_append_of_stripStart?
  · rintro rfl
    exact stripStart?_append start rest

theorem stripStart?_eq_none_iff : stripStart? start text = none ↔ ¬ start <+: text := by
  rw [Option.eq_none_iff_forall_ne_some]
  constructor
  · rintro h ⟨rest, ht⟩
    exact h rest (stripStart?_eq_some_iff.2 ht.symm)
  · intro h rest hr
    exact h ⟨rest, (eq_append_of_stripStart? hr).symm⟩

/-- The split of a text at its first character or behind it. -/
theorem splitOnce?_cons (mark : List Char) (c : Char) (text : List Char) :
    splitOnce? mark (c :: text) =
      match stripStart? mark (c :: text) with
      | some behind => some ([], behind)
      | none => (splitOnce? mark text).map (Prod.map (c :: ·) id) := by
  rw [splitOnce?.eq_def]
  cases stripStart? mark (c :: text) with
  | none => cases h : splitOnce? mark text <;> simp [h, Prod.map]
  | some behind => rfl

theorem splitOnce?_self_append (mark rest : List Char) :
    splitOnce? mark (mark ++ rest) = some ([], rest) := by
  rw [splitOnce?.eq_def, stripStart?_append]

theorem splitOnce?_eq_none_iff : splitOnce? mark text = none ↔ ¬ mark <:+: text := by
  induction text with
  | nil =>
    rw [splitOnce?]
    cases h : stripStart? mark [] with
    | none =>
      have := stripStart?_eq_none_iff.1 h
      simp_all
    | some rest =>
      have := eq_append_of_stripStart? h
      simp_all
  | cons c text ih =>
    rw [splitOnce?_cons, List.infix_cons_iff, not_or, ← ih, ← stripStart?_eq_none_iff]
    cases stripStart? mark (c :: text) <;> simp

/-- No occurrence of the mark begins in `p`, when `rest` stands behind it. -/
theorem splitOnce?_append (p : List Char)
    (h : ∀ a b, p = a ++ b → b ≠ [] → ¬ mark <+: b ++ rest) :
    splitOnce? mark (p ++ rest) = (splitOnce? mark rest).map (Prod.map (p ++ ·) id) := by
  induction p with
  | nil => cases h : splitOnce? mark rest <;> simp [h, Prod.map]
  | cons c p ih =>
    have here : stripStart? mark (c :: p ++ rest) = none :=
      stripStart?_eq_none_iff.2 (h [] (c :: p) rfl (by simp))
    have later := ih fun a b hp hb => h (c :: a) b (by simp [hp]) hb
    rw [List.cons_append] at here
    rw [List.cons_append, splitOnce?_cons, here, later]
    cases splitOnce? mark rest <;> rfl

theorem splitOnce?_append_of_notMem {p : List Char} (h : c ∉ p) :
    splitOnce? (c :: mark) (p ++ rest) =
      (splitOnce? (c :: mark) rest).map (Prod.map (p ++ ·) id) := by
  refine splitOnce?_append p fun a b hp hb hpre => ?_
  cases b with
  | nil => exact hb rfl
  | cons d b =>
    obtain rfl : c = d := (List.cons_prefix_cons.1 hpre).1
    exact h (by simp [hp])

theorem splitOnce?_append_mark {p : List Char} (h : c ∉ p) :
    splitOnce? (c :: mark) (p ++ (c :: mark ++ rest)) = some (p, rest) := by
  rw [splitOnce?_append_of_notMem h, splitOnce?_self_append]
  simp

/-- The first part of a split holds no occurrence of the mark that ends before the one found. -/
theorem not_infix_of_splitOnce? {before behind : List Char}
    (h : splitOnce? mark text = some (before, behind)) (hm : mark ≠ []) : ¬ mark <:+: before := by
  induction text generalizing before with
  | nil =>
    rw [splitOnce?] at h
    split at h
    · cases h
      simpa using hm
    · cases h
  | cons c text ih =>
    rw [splitOnce?_cons] at h
    split at h
    · cases h
      simpa using hm
    · next hs =>
      obtain ⟨⟨b, r⟩, hr, hb⟩ := Option.map_eq_some_iff.1 h
      cases hb
      rw  [List.infix_cons_iff, not_or]
      refine ⟨fun hp => stripStart?_eq_none_iff.1 hs ?_, ih hr⟩
      rw [eq_append_of_splitOnce? hr, List.append_assoc, ← List.cons_append]
      exact hp.trans (List.prefix_append _ _)

/-- What stands before the mark found stands before every mark. -/
theorem exists_splitOnce?_eq (mark before rest : List Char) :
    ∃ first behind, splitOnce? mark (before ++ (mark ++ rest)) = some (first, behind) ∧
      first <+: before := by
  induction before with
  | nil => exact ⟨[], rest, splitOnce?_self_append mark rest, List.prefix_rfl⟩
  | cons c before ih =>
    obtain ⟨first, behind, hs, hp⟩ := ih
    rw [List.cons_append, splitOnce?_cons, hs]
    cases stripStart? mark (c :: (before ++ (mark ++ rest))) with
    | none => exact ⟨c :: first, behind, rfl, List.cons_prefix_cons.2 ⟨rfl, hp⟩⟩
    | some behind => exact ⟨[], behind, rfl, List.nil_prefix⟩

/-- A mark without a character does not reach over it. -/
theorem prefix_of_prefix_append {a b : List Char} (hc : c ∉ mark) (h : mark <+: a ++ c :: b) :
    mark <+: a := by
  induction mark generalizing a with
  | nil => exact List.nil_prefix
  | cons d mark ih =>
    cases a with
    | nil =>
      obtain rfl : d = c := (List.cons_prefix_cons.1 h).1
      exact absurd List.mem_cons_self hc
    | cons e a =>
      obtain ⟨rfl, hrest⟩ := List.cons_prefix_cons.1 h
      rw [List.cons_prefix_cons]
      exact ⟨rfl, ih (fun hm => hc (List.mem_cons_of_mem _ hm)) hrest⟩

theorem infix_of_infix_append_cons {a b : List Char} (hc : c ∉ mark)
    (h : mark <:+: a ++ c :: b) : mark <:+: a ∨ mark <:+: b := by
  induction a with
  | nil =>
    rw [List.nil_append, List.infix_cons_iff] at h
    exact h.imp (fun hp => (prefix_of_prefix_append (a := []) hc hp).isInfix) id
  | cons d a ih =>
    rw [List.cons_append, List.infix_cons_iff] at h
    rcases h with h | h
    · exact .inl (prefix_of_prefix_append (a := d :: a) hc h).isInfix
    · exact (ih h).imp (fun hi => hi.trans (List.suffix_cons d a).isInfix) id

end LiveMarkup
