import LiveMarkup.Proofs.Template.Substitution

/-!
# Stray markers

A marker is stray where nothing can be made of it: the opening of a block with arguments that no
directive asks for, or an end, an else or an elseif where no conditional begins (`IsStray`). All
passes leave such markers, whatever stands in them and around them, and the placeholder pass reports
each of them (`compile_strays`).

* `Scans.append_declined`: a pass leaves a tag behind whose word it can take nothing.
* `Scans.flatMap_text`: what a pass makes of a template, from what it makes of each part.
-/

namespace LiveMarkup

/-! ## Blanks at the end -/

theorem trimEnd_cons {c : Char} {s : List Char} (h : ∃ d ∈ c :: s, isBlank d = false) :
    trimEnd (c :: s) = c :: trimEnd s := by
  rw [trimEnd, trimEnd, List.reverse_cons, List.dropWhile_append]
  split
  · next hs =>
    -- Behind the first character there are blanks only, so it is none itself.
    have hblank : ∀ d ∈ s, isBlank d = true := by
      simpa [List.dropWhile_eq_nil_iff] using hs
    obtain ⟨d, hd, hdb⟩ := h
    rcases List.mem_cons.1 hd with rfl | hd
    · rw [List.isEmpty_iff.1 hs, List.dropWhile_cons_of_neg (by simp [hdb])]
      rfl
    · rw [hblank d hd] at hdb
      cases hdb
  · rw [List.reverse_append]
    rfl

theorem trimEnd_append {s t : List Char} (h : ∃ d ∈ t, isBlank d = false) :
    trimEnd (s ++ t) = s ++ trimEnd t := by
  obtain ⟨d, hd, hb⟩ := h
  induction s with
  | nil => rfl
  | cons c s ih =>
    rw [List.cons_append, trimEnd_cons ⟨d, by simp [hd], hb⟩, ih, List.cons_append]

namespace Template

/-! ## Markers that no block is made of -/

/-- A tag that is the marker of a block, of which nothing can be made if no conditional begins. -/
inductive IsStray : List Char → Prop
  /-- The opening of a block with arguments, other than a conditional. -/
  | opening {name arguments : List Char} {blank : Char} (hword : ∀ c ∈ name, isWordChar c = true)
      (hname : name ≠ "if".toList) (hblank : isBlank blank = true)
      (harguments : Braceless arguments) : IsStray ('#' :: (name ++ blank :: arguments))
  | ending {name : List Char} (hword : ∀ c ∈ name, isWordChar c = true) : IsStray ('/' :: name)
  | otherwise : IsStray "else".toList
  | elseif {condition : List Char} {blank : Char} (hblank : isBlank blank = true)
      (hcondition : Braceless condition) (hsome : ∃ c ∈ condition, isBlank c = false) :
      IsStray ("elseif".toList ++ blank :: condition)

/-- A text without braces, or a stray marker on one line. -/
def Segment.IsLeft : Segment → Prop
  | literal run => Braceless run
  | tag inner => IsStray inner ∧ '\n' ∉ inner

theorem isBlank_of_isWordChar {c : Char} (h : isWordChar c = true) : isBlank c = false :=
  isBlank_of_isKeyChar (isKeyChar_of_isWordChar h)

theorem isWordChar_of_isBlank {b : Char} (h : isBlank b = true) : isWordChar b = false := by
  rw [Bool.eq_false_iff]
  intro hw
  rw [isBlank_of_isWordChar hw] at h
  cases h

theorem braceless_of_isWordChar {name : List Char} (h : ∀ c ∈ name, isWordChar c = true) :
    Braceless name :=
  .of_forall h (by decide) (by decide)

theorem braceless_cons_of_isBlank {b : Char} {t : List Char} (hb : isBlank b = true)
    (ht : Braceless t) : Braceless (b :: t) := by
  refine .cons ?_ ?_ ht
  · rintro rfl
    cases hb
  · rintro rfl
    cases hb

namespace IsStray

variable {tag inner rest : List Char}

theorem braceless (h : IsStray tag) : Braceless tag := by
  cases h with
  | opening hword _ hblank harguments =>
    exact .cons (by decide) (by decide)
      ((braceless_of_isWordChar hword).append (braceless_cons_of_isBlank hblank harguments))
  | ending hword => exact .cons (by decide) (by decide) (braceless_of_isWordChar hword)
  | otherwise => decide
  | elseif hblank hcondition _ =>
    exact .append (by decide) (braceless_cons_of_isBlank hblank hcondition)

/-- No loop begins at a stray marker: its name does not end the tag. -/
theorem readLoop?_eq_none (h : IsStray ('#' :: inner)) :
    readLoop? (inner ++ (closeBraces ++ rest)) = none := by
  cases h with
  | @opening name arguments blank hword _ hblank _ =>
    have hstop := isWordChar_of_isBlank hblank
    have hclose :
        stripStart? closeBraces (blank :: (arguments ++ (closeBraces ++ rest))) = none := by
      refine stripStart?_eq_none_iff.2 fun hp => ?_
      obtain rfl : '\x7d' = blank := (List.cons_prefix_cons.1 hp).1
      cases hblank
    rw [List.append_assoc, List.cons_append]
    simp only [readLoop?, List.takeWhile_append_of_pos hword, List.dropWhile_append_of_pos hword,
      List.dropWhile_cons, hstop, Bool.false_eq_true, if_false, hclose, ite_self]

/-- No conditional begins at a stray marker: its name goes on behind the keyword. -/
theorem readConditional?_eq_none (h : IsStray ('#' :: 'i' :: 'f' :: inner)) :
    readConditional? (inner ++ (closeBraces ++ rest)) = none := by
  generalize ht : '#' :: 'i' :: 'f' :: inner = tag at h
  cases h with
  | @opening name arguments blank hword hname hblank _ =>
    rcases name with _ | ⟨i, _ | ⟨f, _ | ⟨c, name⟩⟩⟩
    · simp only [List.nil_append, List.cons.injEq, true_and] at ht
      rw [← ht.1] at hblank
      cases hblank
    · simp only [List.cons_append, List.nil_append, List.cons.injEq, true_and] at ht
      rw [← ht.2.1] at hblank
      cases hblank
    · simp only [List.cons_append, List.nil_append, List.cons.injEq, true_and] at ht
      exact absurd (by rw [← ht.1, ← ht.2.1]; rfl) hname
    · simp only [List.cons_append, List.cons.injEq, true_and] at ht
      have hc : isBlank c = false := isBlank_of_isWordChar (hword c (by simp))
      rw [ht.2.2, List.cons_append, readConditional?, hc, if_neg Bool.false_ne_true]
  | ending => cases ht
  | otherwise => cases ht
  | elseif => cases ht

theorem exists_cons (h : IsStray tag) : ∃ c t, tag = c :: t ∧ isBlank c = false := by
  cases h with
  | opening => exact ⟨_, _, rfl, by decide⟩
  | ending => exact ⟨_, _, rfl, by decide⟩
  | otherwise => exact ⟨_, _, rfl, by decide⟩
  | elseif => exact ⟨_, _, rfl, by decide⟩

theorem trimStart_eq (h : IsStray tag) : trimStart tag = tag := by
  obtain ⟨c, t, rfl, hc⟩ := h.exists_cons
  exact List.dropWhile_cons_of_neg (by simp [hc])

theorem isBlockTag_elseif {blank : Char} (hb : isBlank blank = true) (condition : List Char) :
    isBlockTag ("elseif".toList ++ blank :: condition) = true := by
  have hkeyword : afterKeyword? "elseif".toList ("elseif".toList ++ blank :: condition) =
      some (blank :: condition) := by
    rw [afterKeyword?, stripStart?_append]
    exact if_pos hb
  rw [isBlockTag.eq_def]
  split
  · rfl
  · rfl
  · rw [hkeyword, Option.isSome_some, Bool.or_true]

theorem isBlockTag_eq (h : IsStray tag) : isBlockTag tag = true := by
  cases h with
  | opening => rfl
  | ending => rfl
  | otherwise => rfl
  | elseif hblank _ _ => exact isBlockTag_elseif hblank _

/-- Without the blanks at its end a stray marker is still the marker of a block, as the condition of
an elseif is not made of blanks. -/
theorem isBlockTag_trim (h : IsStray tag) : isBlockTag (trim tag) = true := by
  rw [trim, h.trimStart_eq]
  cases h with
  | opening => rw [trimEnd_cons ⟨'#', List.mem_cons_self, by decide⟩, isBlockTag]
  | ending => rw [trimEnd_cons ⟨'/', List.mem_cons_self, by decide⟩, isBlockTag]
  | otherwise => rfl
  | elseif hblank _ hsome =>
    obtain ⟨d, hd, hdb⟩ := hsome
    rw [trimEnd_append ⟨d, List.mem_cons_of_mem _ hd, hdb⟩,
      trimEnd_cons ⟨d, List.mem_cons_of_mem _ hd, hdb⟩]
    exact isBlockTag_elseif hblank _

end IsStray

/-! ## Passes over the parts of a template -/

namespace Expansion

theorem concat_map {α : Type} (text : α → List Char) (event? : α → Option Event) (l : List α) :
    concat (l.map fun a => ⟨text a, (event? a).toList⟩) =
      ⟨l.flatMap text, l.filterMap event?⟩ := by
  induction l with
  | nil => rfl
  | cons a l ih =>
    rw [List.map_cons, concat, ih, List.flatMap_cons, List.filterMap_cons]
    cases event? a <;> rfl

end Expansion

namespace Scans

variable {word tag : List Char} {take : List Char → Option (Expansion × List Char)}
  {pass : List Char → Expansion} {parts : List Segment} {each : Segment → Expansion}

/-- A tag is left if nothing can be taken behind its word, in case that it begins with the word of
the mark. -/
theorem append_declined (h : Scans (openBraces ++ word) take pass) (hword : '\x7d' ∉ word)
    (ht : '\x7b' ∉ tag)
    (hnone : ∀ inner rest, tag = word ++ inner → take (inner ++ (closeBraces ++ rest)) = none)
    (rest : List Char) : pass (inBraces tag ++ rest) = .literal (inBraces tag) ++ pass rest := by
  by_cases hw : word <+: tag
  · obtain ⟨inner, rfl⟩ := hw
    have hinner : '\x7b' ∉ inner ++ closeBraces := by
      simp only [List.mem_append, not_or] at ht ⊢
      exact ⟨ht.2, by decide⟩
    have htext : inBraces (word ++ inner) = openBraces ++ word ++ (inner ++ closeBraces) := by
      simp only [inBraces, List.append_assoc]
    rw [htext, List.append_assoc (openBraces ++ word), List.append_assoc inner,
      h.left (hnone inner rest rfl), ← List.append_assoc inner, h.append_run hinner,
      ← Expansion.append_assoc, ← Expansion.literal_append]
  · exact h.append_tag hword ht hw rest

/-- What a pass makes of a template whose parts it treats one by one. -/
theorem flatMap_text (h : Scans (openBraces ++ word) take pass)
    (hpart : ∀ part ∈ parts, ∀ rest, pass (part.text ++ rest) = each part ++ pass rest) :
    pass (parts.flatMap Segment.text) = .concat (parts.map each) := by
  induction parts with
  | nil => exact h.nil
  | cons part parts ih =>
    rw [List.forall_mem_cons] at hpart
    rw [List.flatMap_cons, hpart.1, ih hpart.2, List.map_cons, Expansion.concat]

/-- A pass leaves a template of which it leaves every part. -/
theorem flatMap_text_left (h : Scans (openBraces ++ word) take pass)
    (hpart : ∀ part ∈ parts, ∀ rest,
      pass (part.text ++ rest) = .literal part.text ++ pass rest) :
    pass (parts.flatMap Segment.text) = .literal (parts.flatMap Segment.text) := by
  rw [h.flatMap_text hpart]
  exact (Expansion.concat_map Segment.text (fun _ => none) parts).trans (by
    rw [List.filterMap_eq_nil_iff.2 fun _ _ => rfl]
    rfl)

end Scans

/-! ## Templates with stray markers -/

/-- What is reported of a part of a template that is left: the full text of a marker. -/
def Segment.unmatched? : Segment → Option Event
  | literal _ => none
  | tag inner => some (.reported (.unmatchedMarker (String.ofList (inBraces inner))))

section

variable {parts : List Segment} {state : Fields}

theorem unrollLoops_strays (hparts : ∀ part ∈ parts, part.IsLeft)
    (each : List Char → Inner state → Expansion) :
    unrollLoops state each (parts.flatMap Segment.text) =
      .literal (parts.flatMap Segment.text) := by
  have hscan : Scans (openBraces ++ ['#']) _ _ := scans_unrollLoops state each
  refine hscan.flatMap_text_left fun part hpart rest => ?_
  cases part with
  | literal run => exact hscan.append_run (hparts _ hpart).1 rest
  | tag inner =>
    have hstray : IsStray inner := (hparts _ hpart).1
    refine hscan.append_declined (by decide) hstray.braceless.1 (fun name rest hname => ?_) rest
    have hblock : IsStray ('#' :: name) := by rwa [hname] at hstray
    rw [takeLoop, hblock.readLoop?_eq_none, Option.map_none]

theorem selectBranches_strays (hparts : ∀ part ∈ parts, part.IsLeft) :
    selectBranches state (parts.flatMap Segment.text) =
      .literal (parts.flatMap Segment.text) := by
  have hscan : Scans (openBraces ++ ['#', 'i', 'f']) _ _ := scans_selectBranches state
  refine hscan.flatMap_text_left fun part hpart rest => ?_
  cases part with
  | literal run => exact hscan.append_run (hparts _ hpart).1 rest
  | tag inner =>
    have hstray : IsStray inner := (hparts _ hpart).1
    refine hscan.append_declined (by decide) hstray.braceless.1 (fun name rest hname => ?_) rest
    have hblock : IsStray ('#' :: 'i' :: 'f' :: name) := by rwa [hname] at hstray
    rw [takeConditional, hblock.readConditional?_eq_none, Option.map_none]

/-- A pass over tags leaves a stray marker that is not replaced. -/
theorem substituteTags_stray {f : List Char → Substitution} {inner : List Char}
    (reported : List Diagnostic) (hleft : (Segment.tag inner).IsLeft)
    (hf : f inner = ⟨none, reported⟩) (rest : List Char) :
    substituteTags f ((Segment.tag inner).text ++ rest) =
      ⟨(Segment.tag inner).text, reported.map .reported⟩ ++ substituteTags f rest := by
  obtain ⟨hstray, hline⟩ : IsStray inner ∧ '\n' ∉ inner := hleft
  rw [Segment.text, substituteTags_tag f hstray.braceless.2 hline, Segment.substitute, hf]
  rfl

theorem selectTernaries_strays (hparts : ∀ part ∈ parts, part.IsLeft) :
    selectTernaries state (parts.flatMap Segment.text) =
      .literal (parts.flatMap Segment.text) := by
  refine (scans_tags (substituteTernary state)).flatMap_text_left fun part hpart rest => ?_
  cases part with
  | literal run => exact (scans_tags _).append_run (hparts _ hpart).1 rest
  | tag inner =>
    have hstray : IsStray inner := (hparts _ hpart).1
    refine substituteTags_stray [] (hparts _ hpart) ?_ rest
    rw [substituteTernary, hstray.trimStart_eq, hstray.isBlockTag_eq, if_pos rfl]

theorem fillPlaceholders_strays (hparts : ∀ part ∈ parts, part.IsLeft) (default : List Char) :
    fillPlaceholders default state (parts.flatMap Segment.text) =
      ⟨parts.flatMap Segment.text, parts.filterMap Segment.unmatched?⟩ := by
  rw [← Expansion.concat_map]
  refine (scans_tags (substitutePlaceholder default state)).flatMap_text fun part hpart rest => ?_
  cases part with
  | literal run => exact (scans_tags _).append_run (hparts _ hpart).1 rest
  | tag inner =>
    have hstray : IsStray inner := (hparts _ hpart).1
    refine substituteTags_stray [.unmatchedMarker (String.ofList (inBraces inner))]
      (hparts _ hpart) ?_ rest
    simp only [substitutePlaceholder, hstray.isBlockTag_trim, Bool.or_true, if_true]

/-- A template of texts and stray markers is left, and its markers are reported in order and nothing
else is, in every state. -/
theorem compile_strays {settings : Settings} (hd : settings.directives = [])
    (hparts : ∀ part ∈ parts, part.IsLeft)
    (hevent : ¬ eventMark <:+: parts.flatMap Segment.text) (state : Fields) :
    compile settings (parts.flatMap Segment.text) state =
      ⟨parts.flatMap Segment.text, parts.filterMap Segment.unmatched?⟩ := by
  rw [compile_eq hd, unrollLoops_strays hparts, Expansion.literal_andThen,
    selectBranches_strays hparts, Expansion.literal_andThen, selectTernaries_strays hparts,
    Expansion.literal_andThen, fillPlaceholders_strays hparts]
  exact Expansion.eq_of (bindEvents_eq_self (not_namesEvent_of_absent hevent)) rfl

end

/-- Markers that look like the beginning, a branch and the end of a conditional, and like ternaries,
are left. -/
theorem compile_strays_of_lookalikes :
    let parts : List Segment := [.literal "a ".toList, .tag "#iffy x ? 'y' : z".toList,
      .tag "else".toList, .tag "elseif b ? \"c\" : d ".toList, .literal "\n".toList,
      .tag "/if".toList]
    let template := parts.flatMap Segment.text
    (∀ part ∈ parts, part.IsLeft) ∧ ¬ eventMark <:+: template ∧
      ∀ state, compile ⟨[], []⟩ template state =
        ⟨template, parts.filterMap Segment.unmatched?⟩ := by
  intro parts template
  have hopening : IsStray "#iffy x ? 'y' : z".toList :=
    @IsStray.opening "iffy".toList "x ? 'y' : z".toList ' ' (List.all_eq_true.mp (by decide))
      (by decide) (by decide) (by decide)
  have helseif : IsStray "elseif b ? \"c\" : d ".toList :=
    @IsStray.elseif "b ? \"c\" : d ".toList ' ' (by decide) (by decide)
      ⟨'b', by decide, by decide⟩
  have hending : IsStray "/if".toList :=
    @IsStray.ending "if".toList (List.all_eq_true.mp (by decide))
  have hparts : ∀ part ∈ parts, part.IsLeft := by
    simp only [parts, List.forall_mem_cons, List.not_mem_nil, false_implies, implies_true,
      and_true]
    exact ⟨(by decide : Braceless _), ⟨hopening, by decide⟩, ⟨.otherwise, by decide⟩,
      ⟨helseif, by decide⟩, (by decide : Braceless _), ⟨hending, by decide⟩⟩
  have hevent : ¬ eventMark <:+: template := by decide +kernel
  exact ⟨hparts, hevent, compile_strays rfl hparts hevent⟩

end Template

end LiveMarkup
