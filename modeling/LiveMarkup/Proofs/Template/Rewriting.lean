import LiveMarkup.Proofs.Text.Occurrence
import LiveMarkup.Template.Tag

/-!
# Rewriting the tags of a template

A template falls into runs and tags, whatever the tags are rewritten to, and rewriting asks for each
tag once, in order (`rewriteTags_by_parts`).

Behind a tag the scan goes on behind its end; behind braces that open no tag, it goes on right
behind the braces. No tag is passed over by that: what stands between two tags holds none
(`tagless_between`), as braces that open none have a line break before the next end of a tag, or no
end at all.
-/

namespace LiveMarkup

namespace Template

/-- The tag that a part is. -/
def Segment.tag? : Segment → Option (List Char)
  | literal _ => none
  | tag inner => some inner

/-- There is no tag in the text: no line holds braces and their end. -/
def Tagless (text : List Char) : Prop := ∀ inner, '\n' ∉ inner → ¬ inBraces inner <:+: text

variable {text before afterOpen tag rest inner : List Char}

/-! ## Single tags -/

theorem oneLine_of_splitTag? (h : splitTag? afterOpen = some (tag, rest)) :
    '\n' ∉ tag ∧ ¬ closeBraces <:+: tag := by
  simp only [splitTag?] at h
  split at h
  · next hs =>
    split at h
    · cases h
    · next hn =>
      cases h
      exact ⟨by simpa using hn, not_infix_of_splitOnce? hs (by decide)⟩
  · cases h

/-- Where no tag is split off, none begins. -/
theorem not_prefix_of_splitTag? (h : splitTag? afterOpen = none) (hn : '\n' ∉ inner) :
    ¬ inner ++ closeBraces <+: afterOpen := by
  rintro ⟨rest, rfl⟩
  obtain ⟨first, behind, hs, hp⟩ := exists_splitOnce?_eq closeBraces inner rest
  rw [List.append_assoc] at h
  simp only [splitTag?, hs] at h
  split at h
  · next hc => exact hn (hp.subset (by simpa using hc))
  · cases h

theorem tagless_of_absent (h : ¬ openBraces <:+: text) : Tagless text := fun inner _ hi =>
  h (List.IsInfix.trans ⟨[], inner ++ closeBraces, by simp [inBraces]⟩ hi)

/-- Braces that open no tag are in none. -/
theorem Tagless.behind_braces (hs : splitOnce? openBraces text = some (before, afterOpen))
    (ht : splitTag? afterOpen = none) {run : List Char} (hrun : run <+: afterOpen)
    (h : Tagless run) : Tagless (before ++ openBraces ++ run) := by
  rintro inner hn ⟨a, b, hab⟩
  obtain ⟨more, rfl⟩ := hrun
  -- The braces found are not behind those of the tag.
  have hfirst : before <+: a := by
    obtain ⟨first, behind, hs', hp⟩ :=
      exists_splitOnce?_eq openBraces a (inner ++ closeBraces ++ b ++ more)
    have htext : a ++ (openBraces ++ (inner ++ closeBraces ++ b ++ more)) = text := by
      rw [eq_append_of_splitOnce? hs, ← List.append_assoc (before ++ openBraces), ← hab]
      simp [inBraces]
    rw [htext, hs] at hs'
    cases hs'
    exact hp
  obtain ⟨p, rfl⟩ := hfirst
  have hp : p ++ (openBraces ++ (inner ++ closeBraces ++ b)) = openBraces ++ run := by
    rw [← List.append_right_inj before, ← List.append_assoc before openBraces run, ← hab]
    simp [inBraces]
  rcases p with _ | ⟨c, _ | ⟨d, p⟩⟩
  · refine not_prefix_of_splitTag? ht hn ⟨b ++ more, ?_⟩
    rw [← (List.append_right_inj openBraces).1 hp]
    simp
  · -- The tag would begin with the second of three braces.
    simp only [openBraces, List.cons_append, List.nil_append, List.cons.injEq] at hp
    have hline : '\n' ∉ '\x7b' :: inner := by simpa using hn
    refine not_prefix_of_splitTag? ht hline ⟨b ++ more, ?_⟩
    rw [← hp.2.2]
    simp
  · simp only [openBraces, List.cons_append, List.nil_append, List.cons.injEq] at hp
    refine h inner hn ⟨p, b, ?_⟩
    rw [← hp.2.2]
    simp [inBraces, openBraces]

/-! ## Between tags -/

/-- A stretch of a list is empty, or starts with the list, or is one of what is behind the first. -/
theorem cons_eq_append_append {α : Type} {a : α} {as earlier middle later : List α}
    (h : a :: as = earlier ++ middle ++ later) :
    middle = [] ∨ (∃ rest, middle = a :: rest ∧ as = [] ++ rest ++ later) ∨
      ∃ rest, as = rest ++ middle ++ later := by
  rcases earlier with _ | ⟨b, earlier⟩
  · rcases middle with _ | ⟨b, rest⟩
    · exact .inl rfl
    · obtain ⟨rfl, hrest⟩ := List.cons.inj h
      exact .inr (.inl ⟨rest, rfl, hrest⟩)
  · exact .inr (.inr ⟨earlier, (List.cons.inj h).2⟩)

/-- What stands between two tags holds none. -/
theorem tagless_between {earlier runs later : List Segment}
    (h : segments text = earlier ++ runs ++ later) (hruns : ∀ part ∈ runs, part.tag? = none) :
    Tagless (runs.flatMap Segment.text) := by
  have hnil : Tagless [] := tagless_of_absent (by decide)
  fun_induction segments text generalizing earlier runs with
  | case1 text hs =>
    rcases cons_eq_append_append h with rfl | ⟨rest, rfl, hrest⟩ | ⟨rest, hrest⟩
    · exact hnil
    · obtain rfl : rest = [] := (List.append_eq_nil_iff.1 hrest.symm).1
      simpa [Segment.text] using tagless_of_absent (splitOnce?_eq_none_iff.1 hs)
    · obtain rfl : runs = [] := by
        rw [eq_comm, List.append_assoc, List.append_eq_nil_iff, List.append_eq_nil_iff] at hrest
        exact hrest.2.1
      exact hnil
  | case2 text before afterOpen hs tag rest ht ih =>
    rcases cons_eq_append_append h with rfl | ⟨others, rfl, hrest⟩ | ⟨earlier, hrest⟩
    · exact hnil
    · rcases others with _ | ⟨part, others⟩
      · have hbefore := not_infix_of_splitOnce? hs (by decide)
        simpa [Segment.text] using tagless_of_absent hbefore
      · obtain ⟨rfl, -⟩ := List.cons.inj hrest
        cases hruns (.tag tag) (by simp)
    · rcases cons_eq_append_append hrest with rfl | ⟨others, rfl, -⟩ | ⟨earlier, hbehind⟩
      · exact hnil
      · cases hruns (.tag tag) (by simp)
      · exact ih hbehind hruns
  | case3 text before afterOpen hs ht ih =>
    rcases cons_eq_append_append h with rfl | ⟨others, rfl, hrest⟩ | ⟨earlier, hrest⟩
    · exact hnil
    · have hothers := ih hrest (List.forall_mem_cons.1 hruns).2
      have hprefix : others.flatMap Segment.text <+: afterOpen :=
        ⟨later.flatMap Segment.text, by
          rw [← List.flatMap_append, ← List.nil_append others, ← hrest, flatMap_segments]⟩
      rw [List.flatMap_cons]
      exact hothers.behind_braces hs ht hprefix
    · exact ih hrest hruns

theorem oneLine_of_mem_segments (h : .tag inner ∈ segments text) :
    '\n' ∉ inner ∧ ¬ closeBraces <:+: inner := by
  fun_induction segments text with
  | case1 text hs => simp at h
  | case2 text before afterOpen hs tag rest ht ih =>
    simp only [List.mem_cons, Segment.tag.injEq, reduceCtorEq, false_or] at h
    rcases h with rfl | h
    · exact oneLine_of_splitTag? ht
    · exact ih h
  | case3 text before afterOpen hs ht ih => exact ih (by simpa using h)

/-! ## Asking for the tags -/

section

variable {m : Type → Type} [Monad m] (f : List Char → m (Option (List Char)))

/-- Takes down the tag that is asked for, behind those before it. -/
def noting (tag : List Char) : StateT (List (List Char)) m (Option (List Char)) := do
  modify (· ++ [tag])
  f tag

theorem run_mapM_noting [LawfulMonad m] (parts : List Segment) (noted : List (List Char)) :
    (parts.mapM (Segment.rewrite (noting f))).run noted =
      (·, noted ++ parts.filterMap Segment.tag?) <$> parts.mapM (Segment.rewrite f) := by
  induction parts generalizing noted with
  | nil => simp
  | cons part rest ih =>
    cases part with
    | literal run => simp [Segment.rewrite, Segment.tag?, List.filterMap_cons, ih]
    | tag inner => simp [Segment.rewrite, Segment.tag?, noting, ih]

theorem mapM_rewrite_none [LawfulMonad m] (parts : List Segment) :
    parts.mapM (Segment.rewrite fun _ => (pure none : m _)) = pure (parts.map Segment.text) := by
  induction parts with
  | nil => simp
  | cons part rest ih => cases part <;> simp [Segment.rewrite, Segment.text, ih]

end

/-- A template falls into runs and tags, which make it up. A tag is on one line and ends at the
first end, and no tag stands between two of them. Whatever is answered for the tags, and with
whatever effects, rewriting leaves the runs, puts each answer in place of its tag and leaves the
tags without one. It asks for each tag once, from left to right. -/
theorem rewriteTags_by_parts (text : List Char) :
    (segments text).flatMap Segment.text = text ∧
      (∀ inner, .tag inner ∈ segments text → '\n' ∉ inner ∧ ¬ closeBraces <:+: inner) ∧
      (∀ earlier runs later, segments text = earlier ++ runs ++ later →
        (∀ part ∈ runs, part.tag? = none) → Tagless (runs.flatMap Segment.text)) ∧
      ∀ (m : Type → Type) [Monad m] [LawfulMonad m] (f : List Char → m (Option (List Char))),
        rewriteTags f [] text = List.flatten <$> (segments text).mapM (Segment.rewrite f) ∧
          (rewriteTags (noting f) [] text).run [] =
            (·, (segments text).filterMap Segment.tag?) <$> rewriteTags f [] text ∧
          rewriteTags (fun _ => (pure none : m _)) [] text = pure text := by
  refine ⟨flatMap_segments text, fun _ => oneLine_of_mem_segments, fun _ _ _ => tagless_between,
    fun m _ _ f => ⟨?_, ?_, ?_⟩⟩
  · simp [rewriteTags_eq_mapM_segments]
  · simp [rewriteTags_eq_mapM_segments, run_mapM_noting]
  · simp [rewriteTags_eq_mapM_segments, mapM_rewrite_none, ← List.flatMap_def, flatMap_segments]

/-- A rewriting that counts what it is asked for, and answers the first time only. The braces before
the line break and those at the end open nothing. -/
theorem rewriteTags_by_parts_of_loose_braces :
    let behind := openBraces ++ "b\n".toList ++ closeBraces ++ inBraces ['c'] ++ openBraces
    let text := inBraces ['a'] ++ behind
    let first (tag : List Char) : StateM Nat (Option (List Char)) :=
      fun asked => (if asked = 0 then some ('!' :: tag) else none, asked + 1)
    LawfulMonad (StateM Nat) ∧
      segments text = [.literal [], .tag ['a'], .literal openBraces,
        .literal ("b\n".toList ++ closeBraces), .tag ['c'], .literal openBraces, .literal []] ∧
      Tagless (openBraces ++ "b\n".toList ++ closeBraces) ∧
      (rewriteTags (noting first) [] text).run [] 0 =
        ((['!', 'a'] ++ behind, [['a'], ['c']]), 2) := by
  intro behind text first
  have hparts : segments text = [.literal [], .tag ['a'], .literal openBraces,
      .literal ("b\n".toList ++ closeBraces), .tag ['c'], .literal openBraces, .literal []] := by
    simp only [text, behind]
    decide +kernel
  obtain ⟨-, -, htagless, hasked⟩ := rewriteTags_by_parts text
  obtain ⟨hmade, hnoted, -⟩ := hasked (StateM Nat) first
  refine ⟨inferInstance, hparts, ?_, ?_⟩
  · exact htagless [.literal [], .tag ['a']] [.literal openBraces, .literal _]
      [.tag ['c'], .literal openBraces, .literal []] hparts (by simp [Segment.tag?])
  · rw [hnoted, hmade, hparts]
    rfl

end Template

end LiveMarkup
