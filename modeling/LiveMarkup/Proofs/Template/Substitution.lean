import LiveMarkup.Proofs.Template.Braces
import LiveMarkup.Proofs.Template.Events
import LiveMarkup.Template.Compiler

/-!
# Substituting one placeholder

A template with one placeholder keeps the text around it and shows the sanitized value in its place,
up to the event pass (`compile_around_placeholder`): the value is inserted before that pass, which
rewrites a mark with a name also where the value has brought it in. `compile_placeholder_eq_iff`
says exactly when nothing is rewritten, and `compile_placeholder_rewrites_value` shows a value that
reaches the markup as an attribute, with quotes that are not escaped.
-/

namespace LiveMarkup

namespace Template

/-! ## Keys -/

/-- A character of the key of a placeholder. -/
def isKeyChar (c : Char) : Bool := isWordChar c || c == '.'

theorem isKeyChar_of_isWordChar {c : Char} (h : isWordChar c = true) : isKeyChar c = true := by
  simp [isKeyChar, h]

theorem isBlank_of_isKeyChar {c : Char} (h : isKeyChar c = true) : isBlank c = false := by
  change (((decide (65 ≤ c.val ∧ c.val ≤ 90) || decide (97 ≤ c.val) && decide (c.val ≤ 122)) ||
    decide (48 ≤ c.val) && decide (c.val ≤ 57)) || c == '_' || c == '.') = true at h
  simp only [Bool.or_eq_true, Bool.and_eq_true, decide_eq_true_eq, beq_iff_eq,
    UInt32.le_iff_toNat_le] at h
  change ((((65 ≤ c.toNat ∧ c.toNat ≤ 90) ∨ (97 ≤ c.toNat ∧ c.toNat ≤ 122)) ∨
    (48 ≤ c.toNat ∧ c.toNat ≤ 57)) ∨ c = '_') ∨ c = '.' at h
  have hrange : 46 ≤ c.toNat ∧ c.toNat ≤ 122 := by
    rcases h with (h | rfl) | rfl
    · omega
    · decide
    · decide
  simp only [isBlank, Bool.or_eq_false_iff, Bool.and_eq_false_iff, decide_eq_false_iff_not,
    beq_eq_false_iff_ne]
  omega

/-- The key of a placeholder. -/
structure IsKey (key : List Char) : Prop where
  ne_nil : key ≠ []
  isKeyChar : ∀ c ∈ key, isKeyChar c = true
  ne_else : key ≠ "else".toList

namespace IsKey

variable {key : List Char}

theorem notMem (h : IsKey key) {c : Char} (hc : Template.isKeyChar c = false) : c ∉ key :=
  fun hm => by simp [h.isKeyChar c hm] at hc

theorem braceless (h : IsKey key) : Braceless key := ⟨h.notMem (by decide), h.notMem (by decide)⟩

theorem trimStart_eq (h : IsKey key) : trimStart key = key := by
  obtain ⟨c, rest, rfl⟩ := List.exists_cons_of_ne_nil h.ne_nil
  exact List.dropWhile_cons_of_neg (by
    simp [isBlank_of_isKeyChar (h.isKeyChar c List.mem_cons_self)])

theorem trim_eq (h : IsKey key) : trim key = key := by
  rw [trim, h.trimStart_eq, trimEnd]
  obtain ⟨c, rest, hr⟩ := List.exists_cons_of_ne_nil (List.reverse_ne_nil_iff.2 h.ne_nil)
  have hc : isBlank c = false :=
    isBlank_of_isKeyChar (h.isKeyChar c (List.mem_reverse.1 (hr ▸ List.mem_cons_self)))
  rw [hr, List.dropWhile_cons_of_neg (by simp [hc]), ← hr, List.reverse_reverse]

theorem not_prefix (h : IsKey key) {c : Char} (hc : Template.isKeyChar c = false)
    (word : List Char) : ¬ c :: word <+: key :=
  fun hp => h.notMem hc (hp.subset List.mem_cons_self)

/-- A key is no marker of a block: `elseif` is one only before a blank. -/
theorem isBlockTag_eq (h : IsKey key) : isBlockTag key = false := by
  have hkeyword : afterKeyword? "elseif".toList key = none := by
    rw [afterKeyword?]
    split
    · next c rest hs =>
      refine if_neg fun hb => ?_
      have hc : c ∈ key := by simp [eq_append_of_stripStart? hs]
      simp [isBlank_of_isKeyChar (h.isKeyChar c hc)] at hb
    · rfl
  have helse : (key == "else".toList) = false := beq_eq_false_iff_ne.2 h.ne_else
  rw [isBlockTag.eq_def]
  split
  · exact absurd List.mem_cons_self (h.notMem (c := '#') (by decide))
  · exact absurd List.mem_cons_self (h.notMem (c := '/') (by decide))
  · rw [helse, hkeyword]
    rfl

theorem splitTernary?_eq (h : IsKey key) : splitTernary? key = none := by
  have hs : splitOnce? ['?'] key = none :=
    splitOnce?_eq_none_iff.2 fun hi => h.notMem (c := '?') (by decide) (hi.subset (by simp))
  rw [splitTernary?, hs]

theorem substituteTernary_eq (h : IsKey key) (state : Fields) :
    substituteTernary state key = ⟨none, []⟩ := by
  rw [substituteTernary, h.trimStart_eq, h.isBlockTag_eq, h.splitTernary?_eq]
  rfl

theorem substitutePlaceholder_eq (h : IsKey key) (default : List Char) (state : Fields) :
    substitutePlaceholder default state key =
      match state.find? (String.ofList key) with
      | some value => ⟨some (sanitize value), []⟩
      | none => ⟨some (escape default), [.missingPlaceholder (String.ofList key)]⟩ := by
  simp only [substitutePlaceholder, h.trim_eq, h.isBlockTag_eq, Bool.or_false,
    List.isEmpty_eq_false_iff.2 h.ne_nil]
  rfl

end IsKey

/-! ## Passes over one tag -/

theorem scans_tags (f : List Char → Substitution) :
    Scans (openBraces ++ []) (takeTag f) (substituteTags f) := by
  rw [List.append_nil]
  exact scans_substituteTags f

theorem substituteTags_tag (f : List Char → Substitution) {tag : List Char}
    (hc : '\x7d' ∉ tag) (hn : '\n' ∉ tag) (rest : List Char) :
    substituteTags f (inBraces tag ++ rest) =
      (Segment.tag tag).substitute f ++ substituteTags f rest := by
  have hsplit : splitOnce? closeBraces (tag ++ (closeBraces ++ rest)) = some (tag, rest) :=
    splitOnce?_append_mark hc
  rw [inBraces_append]
  refine (scans_substituteTags f).taken ?_
  rw [takeTag, splitTag?, hsplit]
  simp [hn]

/-- A scan that finds no mark in a tag leaves it and the texts around it. -/
theorem Scans.around_tag {word tag : List Char} {take : List Char → Option (Expansion × List Char)}
    {pass : List Char → Expansion} (h : Scans (openBraces ++ word) take pass)
    (hword : '\x7d' ∉ word) (ht : '\x7b' ∉ tag) (hw : ¬ word <+: tag) {a b : List Char}
    (ha : Braceless a) (hb : Braceless b) :
    pass (a ++ (inBraces tag ++ b)) = .literal (a ++ (inBraces tag ++ b)) := by
  rw [h.append_run ha.1, h.append_tag hword ht hw, h.run hb.1, ← Expansion.literal_append,
    ← Expansion.literal_append]

theorem substituteTags_around_tag (f : List Char → Substitution) {tag : List Char}
    (hc : '\x7d' ∉ tag) (hn : '\n' ∉ tag) {a b : List Char} (ha : Braceless a)
    (hb : Braceless b) :
    substituteTags f (a ++ (inBraces tag ++ b)) =
      .literal a ++ ((Segment.tag tag).substitute f ++ .literal b) := by
  rw [(scans_tags f).append_run ha.1, substituteTags_tag f hc hn, (scans_tags f).run hb.1]

/-- What the passes make of a template without directives. -/
theorem compile_eq {settings : Settings} (hd : settings.directives = []) (template : List Char)
    (state : Fields) :
    compile settings template state =
      let marked := (((unrollLoops state
          (fun body item => compile settings body (itemScope item.1)) template).andThen
        (selectBranches state)).andThen (selectTernaries state)).andThen
        (fillPlaceholders settings.defaultValue state)
      ⟨bindEvents marked.text, marked.events⟩ := by
  rw [compile, hd]
  rfl

variable {settings : Settings} {a b key : List Char} {state : Fields} {value : Value}

/-- The compiled template: the text around the placeholder, the value, and behind these the event
pass. -/
theorem compile_around_placeholder (hd : settings.directives = []) (ha : Braceless a)
    (hb : Braceless b) (hk : IsKey key)
    (hv : state.find? (String.ofList key) = some value) :
    compile settings (a ++ inBraces key ++ b) state =
      ⟨bindEvents (a ++ sanitize value ++ b), []⟩ := by
  have hkey := hk.braceless
  have hn : '\n' ∉ key := hk.notMem (by decide)
  have hloops (each) := (scans_unrollLoops state each).around_tag (by decide) hkey.1
    (hk.not_prefix (c := '#') (by decide) []) ha hb
  have hbranches := (scans_selectBranches state).around_tag (by decide) hkey.1
    (hk.not_prefix (c := '#') (by decide) _) ha hb
  have hternaries : selectTernaries state (a ++ (inBraces key ++ b)) =
      .literal (a ++ (inBraces key ++ b)) := by
    rw [selectTernaries, substituteTags_around_tag _ hkey.2 hn ha hb, Segment.substitute,
      hk.substituteTernary_eq]
    rfl
  have hplaceholders : fillPlaceholders settings.defaultValue state (a ++ (inBraces key ++ b)) =
      .literal (a ++ (sanitize value ++ b)) := by
    rw [fillPlaceholders, substituteTags_around_tag _ hkey.2 hn ha hb, Segment.substitute,
      hk.substitutePlaceholder_eq, hv]
    rfl
  rw [compile_eq hd, List.append_assoc, hloops, Expansion.literal_andThen, hbranches,
    Expansion.literal_andThen, hternaries, Expansion.literal_andThen, hplaceholders,
    List.append_assoc]
  rfl

/-- The value is inserted as it was sanitized and nothing else changes, exactly if the text so made
holds no mark of an event with a name. Nothing is ever reported. -/
theorem compile_placeholder_eq_iff (hd : settings.directives = []) (ha : Braceless a)
    (hb : Braceless b) (hkey : key ≠ []) (hword : ∀ c ∈ key, isWordChar c = true)
    (helse : key ≠ "else".toList) (hv : state.find? (String.ofList key) = some value) :
    (compile settings (a ++ inBraces key ++ b) state).events = [] ∧
      ((compile settings (a ++ inBraces key ++ b) state).text = a ++ sanitize value ++ b ↔
        ¬ NamesEvent (a ++ sanitize value ++ b)) := by
  have hk : IsKey key := ⟨hkey, fun c hc => isKeyChar_of_isWordChar (hword c hc), helse⟩
  rw [compile_around_placeholder hd ha hb hk hv]
  exact ⟨rfl, bindEvents_eq_self_iff⟩

/-- A mark in the value that has no name is kept, and braces in it are. -/
theorem compile_placeholder_eq_iff_of_bare_mark :
    let value := Value.string "event: \x7b\x7bk\x7d\x7d"
    let text := "<p>".toList ++ sanitize value ++ "</p>".toList
    let made := compile ⟨[], []⟩ ("<p>".toList ++ inBraces "k".toList ++ "</p>".toList)
      [("k", value)]
    made.events = [] ∧ (made.text = text ↔ ¬ NamesEvent text) :=
  compile_placeholder_eq_iff rfl (by decide) (by decide) (by decide)
    (List.all_eq_true.mp (by decide)) (by decide) rfl

/-- A value with a mark and a name reaches the markup as an attribute, whose quotes end the quoted
attribute that the value was to stand in. -/
theorem compile_placeholder_rewrites_value :
    let before := "<p title=\"".toList
    let behind := "\">".toList
    let made := compile ⟨[], []⟩ (before ++ inBraces "k".toList ++ behind)
      [("k", .string "event:x")]
    (Braceless before ∧ ¬ eventMark <:+: before) ∧ (Braceless behind ∧ ¬ eventMark <:+: behind) ∧
      made.text = "<p title=\"data-event=\"x\"\">".toList ∧
      made.text ≠ before ++ sanitize (.string "event:x") ++ behind := by
  intro before behind made
  have hmade : made.text = "<p title=\"data-event=\"x\"\">".toList := by
    have hsplit : splitOnce? eventMark (before ++ sanitize (.string "event:x") ++ behind) =
        some (before, "x\">".toList) := by decide +kernel
    have hrest : ¬ NamesEvent "\">".toList := not_namesEvent_of_absent (by decide +kernel)
    have hk : IsKey "k".toList := ⟨by decide, List.all_eq_true.mp (by decide), by decide⟩
    simp only [made]
    rw [compile_around_placeholder rfl (by decide) (by decide) hk rfl]
    exact (bindEvents_of_splitOnce? hsplit).trans (by
      rw [show ("x\">".toList).dropWhile isWordChar = "\">".toList by decide +kernel,
        bindEvents_eq_self hrest]
      decide +kernel)
  refine ⟨by decide +kernel, by decide +kernel, hmade, ?_⟩
  rw [hmade]
  decide +kernel

end Template

end LiveMarkup
