import LiveMarkup.Proofs.Dom.Alignment
import Mathlib.Data.List.Infix

/-!
# Paths in trees

A path goes down from the root of a tree: each number of it is the index of a child. `Tree.at?` is
the tree at a path. If the labels of a tree are distinct, a label stands at one path
(`Tree.eq_of_labelAt?`).

Two trees match along a path if at each path that leads to it, and at its end, both have a node and
these match (`Tree.MatchedAlong`). Trees that match along a path were aligned with one another there
(`AlignedAll.exists_aligned`), and the aligned tree has the label of the live one
(`Aligned.labelAt?_eq`).
-/

namespace LiveMarkup

/-- Two texts, or elements with one tag. -/
def Content.Matches : Content → Content → Prop
  | .text _, .text _ => True
  | .element tag _, .element tag' _ => tag = tag'
  | _, _ => False

theorem Content.Alike.matches : ∀ {c d : Content}, c.Alike d → c.Matches d
  | .text _, .text _, _ => trivial
  | .element _ _, .element _ _, h => h.1

namespace Tree

variable {α : Type} {t u v : Tree α} {ts : List (Tree α)} {x : α} {i : Nat} {path other : List Nat}

/-- The tree at a path. -/
def at? : Tree α → List Nat → Option (Tree α)
  | t, [] => some t
  | t, i :: path => t.children[i]?.bind fun child => child.at? path

/-- The label at a path. -/
def labelAt? (t : Tree α) (path : List Nat) : Option α := (t.at? path).map label

/-- Both trees have a node at the path and at every path that leads to it, and these match. -/
def MatchedAlong (t u : Tree α) (path : List Nat) : Prop :=
  ∀ q, q <+: path → ∃ v w, t.at? q = some v ∧ u.at? q = some w ∧ v.content.Matches w.content

theorem at?_nil (t : Tree α) : t.at? [] = some t := by
  rw [at?]

theorem at?_cons (t : Tree α) (i : Nat) (path : List Nat) :
    t.at? (i :: path) = t.children[i]?.bind fun child => child.at? path := by
  rw [at?]

theorem labelAt?_nil (t : Tree α) : t.labelAt? [] = some t.label := by
  rw [labelAt?, at?_nil, Option.map_some]

theorem labelAt?_cons (t : Tree α) (i : Nat) (path : List Nat) :
    t.labelAt? (i :: path) = t.children[i]?.bind fun child => child.labelAt? path := by
  rw [labelAt?, at?_cons, Option.map_bind]
  rfl

theorem labelAt?_of_child (h : t.children[i]? = some u) (path : List Nat) :
    t.labelAt? (i :: path) = u.labelAt? path := by
  rw [labelAt?_cons, h, Option.bind_some]

/-- What is at a path of some numbers is at the rest of them below a child. -/
theorem exists_child_of_labelAt? (h : t.labelAt? (i :: path) = some x) :
    ∃ u, t.children[i]? = some u ∧ u.labelAt? path = some x := by
  rw [labelAt?_cons, Option.bind_eq_some_iff] at h
  exact h

theorem mem_labelsOfAll_of_getElem? (h : ts[i]? = some t) (hx : x ∈ t.labels) :
    x ∈ labelsOfAll ts := labels_subset_of_mem (List.mem_of_getElem? h) hx

theorem mem_labels_of_labelAt? (h : t.labelAt? path = some x) : x ∈ t.labels := by
  induction path generalizing t with
  | nil =>
    rw [labelAt?_nil, Option.some_inj] at h
    exact h ▸ t.label_mem_labels
  | cons i path ih =>
    obtain ⟨u, hu, hx⟩ := exists_child_of_labelAt? h
    rw [t.labels_eq]
    exact List.mem_cons_of_mem _ (mem_labelsOfAll_of_getElem? hu (ih hx))

mutual

/-- Every label stands at a path. -/
theorem exists_labelAt?_of_mem : ∀ {t : Tree α}, x ∈ t.labels → ∃ path, t.labelAt? path = some x
  | node a c ts, h => by
    rcases List.mem_cons.1 h with rfl | h
    · exact ⟨[], labelAt?_nil _⟩
    · obtain ⟨i, u, path, hu, hx⟩ := exists_labelAt?_of_mem_labelsOfAll h
      exact ⟨i :: path, (labelAt?_of_child (t := node a c ts) hu path).trans hx⟩

theorem exists_labelAt?_of_mem_labelsOfAll : ∀ {ts : List (Tree α)}, x ∈ labelsOfAll ts →
    ∃ (i : Nat) (u : Tree α) (path : List Nat), ts[i]? = some u ∧ u.labelAt? path = some x
  | t :: ts, h => by
    rw [labelsOfAll, List.mem_append] at h
    rcases h with h | h
    · obtain ⟨path, hx⟩ := exists_labelAt?_of_mem h
      exact ⟨0, t, path, rfl, hx⟩
    · obtain ⟨i, u, path, hu, hx⟩ := exists_labelAt?_of_mem_labelsOfAll h
      exact ⟨i + 1, u, path, hu, hx⟩

end

/-- A label stands below one tree of a list only. -/
theorem eq_of_mem_labels_of_getElem? {j : Nat} (hn : (labelsOfAll ts).Nodup) (ht : ts[i]? = some t)
    (hu : ts[j]? = some u) (hx : x ∈ t.labels) (hx' : x ∈ u.labels) : i = j := by
  rw [labelsOfAll_eq_flatMap, List.nodup_flatMap, List.pairwise_iff_getElem] at hn
  obtain ⟨hi, rfl⟩ := List.getElem?_eq_some_iff.1 ht
  obtain ⟨hj, rfl⟩ := List.getElem?_eq_some_iff.1 hu
  rcases Nat.lt_trichotomy i j with hlt | he | hlt
  · exact absurd hx' (hn.2 i j hi hj hlt hx)
  · exact he
  · exact absurd hx (hn.2 j i hj hi hlt hx')

/-- The label of the root does not stand below it. -/
theorem labelAt?_cons_ne_label (hn : t.labels.Nodup) : t.labelAt? (i :: path) ≠ some t.label := by
  intro h
  obtain ⟨u, hu, hx⟩ := exists_child_of_labelAt? h
  rw [t.labels_eq, List.nodup_cons] at hn
  exact hn.1 (mem_labelsOfAll_of_getElem? hu (mem_labels_of_labelAt? hx))

/-- If labels are distinct, a label stands at one path. -/
theorem eq_of_labelAt? (hn : t.labels.Nodup) (h : t.labelAt? path = some x)
    (h' : t.labelAt? other = some x) : path = other := by
  induction path generalizing t other with
  | nil =>
    rw [labelAt?_nil, Option.some_inj] at h
    cases other with
    | nil => rfl
    | cons j other => exact absurd (h ▸ h') (labelAt?_cons_ne_label hn)
  | cons i path ih =>
    cases other with
    | nil =>
      rw [labelAt?_nil, Option.some_inj] at h'
      exact absurd (h' ▸ h) (labelAt?_cons_ne_label hn)
    | cons j other =>
      obtain ⟨u, hu, hx⟩ := exists_child_of_labelAt? h
      obtain ⟨v, hv, hx'⟩ := exists_child_of_labelAt? h'
      rw [t.labels_eq, List.nodup_cons] at hn
      obtain rfl := eq_of_mem_labels_of_getElem? hn.2 hu hv (mem_labels_of_labelAt? hx)
        (mem_labels_of_labelAt? hx')
      obtain rfl := Option.some.inj (hu.symm.trans hv)
      rw [ih (hn.2.sublist (labels_sublist_of_mem (List.mem_of_getElem? hu))) hx hx']

/-- The labels around a tree of a list. -/
theorem labelsOfAll_eq_of_getElem? (h : ts[i]? = some t) :
    labelsOfAll ts =
      labelsOfAll (ts.take i) ++ (t.labels ++ labelsOfAll (ts.drop (i + 1))) := by
  obtain ⟨hi, rfl⟩ := List.getElem?_eq_some_iff.1 h
  rw [← labelsOfAll, ← List.drop_eq_getElem_cons hi, ← labelsOfAll_append, List.take_append_drop]

/-! ## Matching along a path -/

theorem matchedAlong_nil : t.MatchedAlong u [] ↔ t.content.Matches u.content := by
  constructor
  · intro h
    obtain ⟨v, w, hv, hw, hm⟩ := h [] List.prefix_rfl
    rw [at?_nil, Option.some_inj] at hv hw
    rwa [hv, hw]
  · intro h q hq
    rw [List.prefix_nil.1 hq]
    exact ⟨t, u, t.at?_nil, u.at?_nil, h⟩

theorem matchedAlong_cons : t.MatchedAlong u (i :: path) ↔ t.content.Matches u.content ∧
    ∃ v w, t.children[i]? = some v ∧ u.children[i]? = some w ∧ v.MatchedAlong w path := by
  constructor
  · intro h
    refine ⟨matchedAlong_nil.1 fun q hq => h q (hq.trans List.nil_prefix), ?_⟩
    obtain ⟨_, _, hv, hw, -⟩ := h [i] (List.prefix_append [i] path)
    rw [at?_cons, Option.bind_eq_some_iff] at hv hw
    obtain ⟨v, hv, -⟩ := hv
    obtain ⟨w, hw, -⟩ := hw
    refine ⟨v, w, hv, hw, fun q hq => ?_⟩
    obtain ⟨v', w', hv', hw', hm⟩ := h (i :: q) (List.cons_prefix_cons.2 ⟨rfl, hq⟩)
    rw [at?_cons, hv, Option.bind_some] at hv'
    rw [at?_cons, hw, Option.bind_some] at hw'
    exact ⟨v', w', hv', hw', hm⟩
  · rintro ⟨hroot, v, w, hv, hw, h⟩ q hq
    rcases List.prefix_cons_iff.1 hq with rfl | ⟨q, rfl, hq'⟩
    · exact ⟨t, u, t.at?_nil, u.at?_nil, hroot⟩
    · obtain ⟨v', w', hv', hw', hm⟩ := h q hq'
      exact ⟨v', w', by rw [at?_cons, hv, Option.bind_some, hv'],
        by rw [at?_cons, hw, Option.bind_some, hw'], hm⟩

end Tree

/-! ## Aligned trees along paths -/

namespace Dom

variable {parent : NodeId} {t u v : Tree NodeId} {ts us vs : List (Tree NodeId)}
  {edits : List Edit} {i : Nat} {path : List Nat}

/-- Nodes that are replaced do not match. -/
theorem not_matches_of_replace {c d : Content}
    (h : Patch.Match.ofContents (some c) (some d) = .replace) : ¬ c.Matches d := by
  intro hm
  cases c <;> cases d <;> simp_all [Patch.Match.ofContents, Content.Matches]

namespace AlignedAll

theorem length_eq : ∀ {parent : NodeId} {ts us vs : List (Tree NodeId)} {edits : List Edit},
    AlignedAll parent ts us vs edits → vs.length = us.length
  | _, _, _, _, _, .done _ => rfl
  | _, _, _, _, _, .matched _ hrest => congrArg (· + 1) hrest.length_eq
  | _, _, _, _, _, .surplus hrest => hrest.length_eq
  | _, _, _, _, _, .missing _ hrest => congrArg (· + 1) hrest.length_eq

/-- Where both lists have a tree, the two were aligned, between what was done before them and what
was done after. -/
theorem exists_aligned (h : AlignedAll parent ts us vs edits) (ht : ts[i]? = some t)
    (hu : us[i]? = some u) : ∃ v before own after, vs[i]? = some v ∧ Aligned t u v own ∧
      edits = before ++ own ++ after ∧
      AlignedAll parent (ts.take i) (us.take i) (vs.take i) before ∧
      AlignedAll parent (ts.drop (i + 1)) (us.drop (i + 1)) (vs.drop (i + 1)) after := by
  -- The rule is `matched` at every index up to this one, since both lists go on.
  induction i generalizing ts us vs edits with
  | zero =>
    cases h with
    | done => cases ht
    | surplus => cases hu
    | missing => cases ht
    | matched h hrest =>
      cases ht
      cases hu
      exact ⟨_, [], _, _, rfl, h, rfl, .done parent, hrest⟩
  | succ i ih =>
    cases h with
    | done => cases ht
    | surplus => cases hu
    | missing => cases ht
    | matched h hrest =>
      obtain ⟨v, before, own, after, hv, hown, rfl, hbefore, hafter⟩ := ih hrest ht hu
      refine ⟨v, _ ++ before, own, after, hv, hown, ?_, .matched h hbefore, hafter⟩
      simp only [List.append_assoc]

/-- Where only the fresh list has a tree, it was copied. -/
theorem exists_copy (h : AlignedAll parent ts us vs edits) (ht : ts[i]? = none)
    (hv : vs[i]? = some v) : ∃ node, Edit.copyTree node v.label v.labels ∈ edits := by
  induction i generalizing ts us vs edits with
  | zero =>
    cases h with
    | done => cases hv
    | matched => cases ht
    | surplus => cases ht
    | missing =>
      cases hv
      exact ⟨_, List.mem_cons_self⟩
  | succ i ih =>
    cases h with
    | done => cases hv
    | surplus hrest => cases hrest <;> cases hv
    | matched _ hrest =>
      obtain ⟨node, hm⟩ := ih hrest ht hv
      exact ⟨node, List.mem_append_right _ hm⟩
    | missing _ hrest =>
      obtain ⟨node, hm⟩ := ih hrest rfl hv
      exact ⟨node, List.mem_cons_of_mem _ (List.mem_cons_of_mem _ hm)⟩

end AlignedAll

namespace Aligned

/-- Where the trees match, the aligned one has the label of the live one. -/
theorem labelAt?_eq (h : Aligned t u v edits) (hm : t.MatchedAlong u path) :
    v.labelAt? path = t.labelAt? path := by
  induction path generalizing t u v edits with
  | nil =>
    rw [Tree.matchedAlong_nil] at hm
    cases h with
    | text => rfl
    | element => rfl
    | replaced hr => exact absurd hm (not_matches_of_replace hr)
  | cons i path ih =>
    obtain ⟨hroot, t', u', ht, hu, hm'⟩ := Tree.matchedAlong_cons.1 hm
    cases h with
    | text => cases ht
    | replaced hr => exact absurd hroot (not_matches_of_replace hr)
    | element hall =>
      obtain ⟨v', -, own, -, hv, hown, -⟩ := hall.exists_aligned ht hu
      rw [Tree.labelAt?_of_child ht, Tree.labelAt?_of_child hv, ih hown hm']

end Aligned

end Dom

end LiveMarkup
