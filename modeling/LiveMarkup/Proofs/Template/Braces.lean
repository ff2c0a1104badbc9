import LiveMarkup.Proofs.Template.Scan

/-!
# Texts and tags without braces

In a text without braces no mark begins, and in a tag without braces inside, marks begin at its
start only. So a pass leaves such a text (`Scans.append_run`), and a tag that does not begin with
the word of its mark (`Scans.append_tag`).
-/

namespace LiveMarkup

namespace Template

/-- A text without braces. -/
def Braceless (text : List Char) : Prop := '\x7b' ∉ text ∧ '\x7d' ∉ text

instance (text : List Char) : Decidable (Braceless text) :=
  inferInstanceAs (Decidable (_ ∧ _))

namespace Braceless

variable {s t : List Char}

theorem nil : Braceless [] := ⟨List.not_mem_nil, List.not_mem_nil⟩

theorem cons {c : Char} (ho : c ≠ '\x7b') (hc : c ≠ '\x7d') (ht : Braceless t) :
    Braceless (c :: t) :=
  ⟨List.not_mem_cons_of_ne_of_not_mem ho.symm ht.1, List.not_mem_cons_of_ne_of_not_mem hc.symm ht.2⟩

theorem append_iff : Braceless (s ++ t) ↔ Braceless s ∧ Braceless t := by
  simp only [Braceless, List.mem_append, not_or]
  constructor
  · rintro ⟨⟨a, b⟩, c, d⟩
    exact ⟨⟨a, c⟩, b, d⟩
  · rintro ⟨⟨a, c⟩, b, d⟩
    exact ⟨⟨a, b⟩, c, d⟩

theorem append (hs : Braceless s) (ht : Braceless t) : Braceless (s ++ t) := append_iff.2 ⟨hs, ht⟩

/-- Part of a text without braces, in any order, is one. -/
theorem of_subset (ht : Braceless t) (h : s ⊆ t) : Braceless s :=
  ⟨fun hm => ht.1 (h hm), fun hm => ht.2 (h hm)⟩

theorem of_forall {P : Char → Prop} (h : ∀ c ∈ t, P c) (ho : ¬ P '\x7b') (hc : ¬ P '\x7d') :
    Braceless t :=
  ⟨fun hm => ho (h _ hm), fun hm => hc (h _ hm)⟩

theorem flatMap {α : Type} {l : List α} {f : α → List Char} (h : ∀ a ∈ l, Braceless (f a)) :
    Braceless (l.flatMap f) := by
  constructor
  · intro hm
    obtain ⟨a, ha, hc⟩ := List.mem_flatMap.1 hm
    exact (h a ha).1 hc
  · intro hm
    obtain ⟨a, ha, hc⟩ := List.mem_flatMap.1 hm
    exact (h a ha).2 hc

end Braceless

/-! ## The word of a tag -/

variable {word tag rest u v : List Char} {c : Char}

/-- A character that is in neither of two texts ends both of them at the same place. -/
theorem eq_of_prefix_append (hu : c ∉ u) (ht : c ∉ tag) (h : u ++ c :: v <+: tag ++ c :: rest) :
    u = tag := by
  induction u generalizing tag with
  | nil =>
    cases tag with
    | nil => rfl
    | cons d tag =>
      obtain rfl : c = d := (List.cons_prefix_cons.1 h).1
      exact absurd List.mem_cons_self ht
  | cons a u ih =>
    cases tag with
    | nil =>
      obtain rfl : a = c := (List.cons_prefix_cons.1 h).1
      exact absurd List.mem_cons_self hu
    | cons d tag =>
      obtain ⟨rfl, hrest⟩ := List.cons_prefix_cons.1 h
      rw [ih (fun hm => hu (List.mem_cons_of_mem _ hm))
        (fun hm => ht (List.mem_cons_of_mem _ hm)) hrest]

theorem inBraces_append (tag rest : List Char) :
    inBraces tag ++ rest = openBraces ++ (tag ++ (closeBraces ++ rest)) := by
  simp only [inBraces, List.append_assoc]

/-- In a tag without an opening brace inside, a mark begins only at the start. -/
theorem splitOnce?_tag_append (ht : '\x7b' ∉ tag)
    (hw : ¬ word <+: tag ++ (closeBraces ++ rest)) :
    splitOnce? (openBraces ++ word) (inBraces tag ++ rest) =
      (splitOnce? (openBraces ++ word) rest).map (Prod.map (inBraces tag ++ ·) id) := by
  have hinner : '\x7b' ∉ tag ++ closeBraces := by
    simp [closeBraces, ht]
  refine splitOnce?_append _ fun a b hab hb hpre => ?_
  rcases a with _ | ⟨x, _ | ⟨y, a⟩⟩
  · rw [List.nil_append] at hab
    rw [← hab, inBraces_append, List.prefix_append_right_inj] at hpre
    exact hw hpre
  · obtain ⟨-, rfl⟩ := List.cons.inj hab
    have hsecond : '\x7b' :: word <+: tag ++ closeBraces ++ rest :=
      (List.cons_prefix_cons.1 hpre).2
    refine hinner ?_
    cases tag with
    | nil =>
      have := (List.cons_prefix_cons.1 hsecond).1
      contradiction
    | cons d tag =>
      obtain rfl : '\x7b' = d := (List.cons_prefix_cons.1 hsecond).1
      simp
  · obtain ⟨-, hab⟩ := List.cons.inj hab
    obtain ⟨-, hab⟩ := List.cons.inj hab
    cases b with
    | nil => exact hb rfl
    | cons d b =>
      obtain rfl : '\x7b' = d := (List.cons_prefix_cons.1 hpre).1
      refine hinner ?_
      rw [show tag ++ closeBraces = a ++ '\x7b' :: b from hab]
      simp

/-! ## What a scan leaves -/

namespace Scans

variable {take : List Char → Option (Expansion × List Char)} {pass : List Char → Expansion}

/-- Up to the next opening brace a pass leaves everything as it is. -/
theorem append_run (h : Scans (openBraces ++ word) take pass) {run : List Char}
    (hr : '\x7b' ∉ run) (rest : List Char) :
    pass (run ++ rest) = .literal run ++ pass rest :=
  h.append (splitOnce?_append_of_notMem hr)

theorem nil (h : Scans (openBraces ++ word) take pass) : pass [] = .literal [] :=
  h.of_absent (by simp [openBraces])

theorem run (h : Scans (openBraces ++ word) take pass) {run : List Char} (hr : '\x7b' ∉ run) :
    pass run = .literal run := by
  rw [← List.append_nil run, h.append_run hr, h.nil, ← Expansion.literal_append]

/-- A tag that does not begin with the word of the mark is left. -/
theorem append_tag (h : Scans (openBraces ++ word) take pass) (hword : '\x7d' ∉ word)
    (ht : '\x7b' ∉ tag) (hw : ¬ word <+: tag) (rest : List Char) :
    pass (inBraces tag ++ rest) = .literal (inBraces tag) ++ pass rest :=
  h.append (splitOnce?_tag_append ht fun hp => hw (prefix_of_prefix_append hword hp))

end Scans

end Template

end LiveMarkup
