import LiveMarkup.Markup.Sanitize
import LiveMarkup.Proofs.Number.Written
import LiveMarkup.Proofs.Text.Occurrence

/-!
# Escaped text and its way back

An escaped text is the text with each of five characters replaced by its reference
(`escape_eq_replace`), and reading the five references from left to right gives the text back
(`unescape_escape`). The reference that stands somewhere is the one that is read there, whatever
follows it (`readReference?_append`), and an escaped text has no other ampersands.

What a value is shown as is inert (`Inert.sanitize`): it can neither open or close a tag nor end
a quoted attribute value, and its ampersands begin references.
-/

namespace LiveMarkup

/-- The characters that mean something in markup, each with the reference that stands for it. -/
def markupReferences : List (Char × List Char) :=
  [('&', "&amp;".toList), ('<', "&lt;".toList), ('>', "&gt;".toList), ('"', "&quot;".toList),
    ('\'', "&#39;".toList)]

/-- The character whose reference begins the text, and the text behind that reference. -/
def readReference? (text : List Char) : Option (Char × List Char) :=
  markupReferences.findSome? fun entry =>
    (stripStart? entry.2 text).map fun rest => (entry.1, rest)

variable {text behind reference : List Char} {c : Char}

theorem length_lt_of_readReference? (h : readReference? text = some (c, behind)) :
    behind.length < text.length := by
  obtain ⟨entry, hentry, hread⟩ := List.exists_of_findSome?_eq_some h
  obtain ⟨rest, hrest, hpair⟩ := Option.map_eq_some_iff.1 hread
  cases hpair
  have hlength := length_of_stripStart? hrest
  have hpos : ∀ entry ∈ markupReferences, 0 < entry.2.length := by decide
  have := hpos entry hentry
  omega

/-- The text with every reference, from left to right, read back as its character. -/
def unescape (text : List Char) : List Char :=
  match _h : readReference? text with
  | some (c, behind) => c :: unescape behind
  | none =>
    match text with
    | [] => []
    | c :: rest => c :: unescape rest
termination_by text.length
decreasing_by
  · exact length_lt_of_readReference? _h
  · simp

theorem unescape_of_reference (h : readReference? text = some (c, behind)) :
    unescape text = c :: unescape behind := by
  rw [unescape]
  split
  · next hread =>
    rw [h] at hread
    cases hread
    rfl
  · next hread =>
    rw [h] at hread
    cases hread

theorem unescape_cons_of_none (h : readReference? (c :: behind) = none) :
    unescape (c :: behind) = c :: unescape behind := by
  rw [unescape]
  split
  · next hread =>
    rw [h] at hread
    cases hread
  · rfl

/-! ## The references -/

theorem exists_cons_of_mem_markupReferences (h : (c, reference) ∈ markupReferences) :
    ∃ name, reference = '&' :: name ∧ name.any isMarkupChar = false := by
  have hall : ∀ entry ∈ markupReferences, ∃ name, entry.2 = '&' :: name ∧
      name.any isMarkupChar = false := by
    simp only [markupReferences, List.forall_mem_cons]
    exact ⟨⟨_, rfl, rfl⟩, ⟨_, rfl, rfl⟩, ⟨_, rfl, rfl⟩, ⟨_, rfl, rfl⟩, ⟨_, rfl, rfl⟩,
      List.forall_mem_nil _⟩
  exact hall _ h

/-- What is no ampersand begins no reference. -/
theorem readReference?_of_ne (h : c ≠ '&') (rest : List Char) :
    readReference? (c :: rest) = none := by
  rw [readReference?, List.findSome?_eq_none_iff]
  intro entry hentry
  obtain ⟨name, hname, -⟩ := exists_cons_of_mem_markupReferences hentry
  rw [hname, stripStart?, if_neg h.symm, Option.map_none]

/-- The reference that stands at the start is the one that is read, whatever follows it. -/
theorem readReference?_append (h : (c, reference) ∈ markupReferences) (behind : List Char) :
    readReference? (reference ++ behind) = some (c, behind) := by
  simp only [markupReferences, List.mem_cons, Prod.mk.injEq, List.not_mem_nil, or_false] at h
  rcases h with ⟨rfl, rfl⟩ | ⟨rfl, rfl⟩ | ⟨rfl, rfl⟩ | ⟨rfl, rfl⟩ | ⟨rfl, rfl⟩
  all_goals simp [readReference?, markupReferences, stripStart?]

theorem isMarkupChar_cases (c : Char) :
    (c = '&' ∨ c = '<' ∨ c = '>' ∨ c = '"' ∨ c = '\'') ∨ isMarkupChar c = false := by
  by_cases h : isMarkupChar c = false
  · exact .inr h
  · simp only [isMarkupChar, Bool.not_eq_false, Bool.or_eq_true, beq_iff_eq, or_assoc] at h
    exact .inl h

/-- A markup character is written as its reference, and every other one as itself. -/
theorem escapeChar_cases (c : Char) :
    (c, escapeChar c) ∈ markupReferences ∨ escapeChar c = [c] ∧ isMarkupChar c = false := by
  rcases isMarkupChar_cases c with (rfl | rfl | rfl | rfl | rfl) | h
  case inr => exact .inr ⟨escapeChar_of_not_isMarkupChar h, h⟩
  all_goals exact .inl (by decide)

theorem lookup_markupReferences (c : Char) :
    (markupReferences.lookup c).getD [c] = escapeChar c := by
  rcases isMarkupChar_cases c with (rfl | rfl | rfl | rfl | rfl) | h
  case inr =>
    rw [escapeChar_of_not_isMarkupChar h]
    simp only [isMarkupChar, Bool.or_eq_false_iff] at h
    simp [markupReferences, List.lookup_cons, h]
  all_goals rfl

/-! ## Escaping and its way back -/

/-- Escaping replaces each of the five characters by its reference. -/
theorem escape_eq_replace (text : List Char) :
    escape text = text.flatMap fun c => (markupReferences.lookup c).getD [c] := by
  simp only [escape_eq_flatMap, lookup_markupReferences]

theorem unescape_escapeChar_append (c : Char) (behind : List Char) :
    unescape (escapeChar c ++ behind) = c :: unescape behind := by
  rcases escapeChar_cases c with h | ⟨h, hc⟩
  · exact unescape_of_reference (readReference?_append h behind)
  · have hne : c ≠ '&' := by
      rintro rfl
      exact absurd hc (by decide)
    rw [h, List.singleton_append]
    exact unescape_cons_of_none (readReference?_of_ne hne behind)

theorem unescape_escape (text : List Char) : unescape (escape text) = text := by
  induction text with
  | nil =>
    rw [escape_nil, unescape]
    rfl
  | cons c rest ih => rw [escape_cons, unescape_escapeChar_append, ih]

/-! ## Inert text -/

/-- The text has no tag delimiters and no quotes, and each of its ampersands begins a reference. -/
structure Inert (text : List Char) : Prop where
  notMem : ∀ c ∈ ['<', '>', '"', '\''], c ∉ text
  begins : ∀ before behind, text = before ++ '&' :: behind →
    ∃ c reference, (c, reference) ∈ markupReferences ∧ reference <+: '&' :: behind

namespace Inert

variable {a b : List Char}

theorem of_plain (h : text.any isMarkupChar = false) : Inert text := by
  rw [List.any_eq_false] at h
  refine ⟨fun c hc hm => ?_, fun before behind hsplit => ?_⟩
  · have hall : ['<', '>', '"', '\''].all isMarkupChar = true := by decide
    exact h c hm (List.all_eq_true.1 hall c hc)
  · exact absurd (by decide : isMarkupChar '&' = true) (h '&' (by simp [hsplit]))

theorem append (ha : Inert a) (hb : Inert b) : Inert (a ++ b) := by
  refine ⟨fun c hc hm => ?_, fun before behind hsplit => ?_⟩
  · rcases List.mem_append.1 hm with hm | hm
    · exact ha.notMem c hc hm
    · exact hb.notMem c hc hm
  · -- The ampersand stands in one of the two texts, and what follows it there follows it here.
    rcases List.append_eq_append_iff.1 hsplit with ⟨more, rfl, hmore⟩ | ⟨more, rfl, hmore⟩
    · exact hb.begins more behind hmore
    · cases more with
      | nil => exact hb.begins [] behind hmore.symm
      | cons d more =>
        obtain ⟨rfl, rfl⟩ := List.cons.inj hmore
        obtain ⟨c, reference, href, hpre⟩ := ha.begins before more rfl
        exact ⟨c, reference, href, hpre.trans (List.prefix_append _ b)⟩

theorem of_mem (h : (c, reference) ∈ markupReferences) : Inert reference := by
  obtain ⟨name, rfl, hname⟩ := exists_cons_of_mem_markupReferences h
  refine ⟨fun d hd hm => ?_, fun before behind hsplit => ?_⟩
  · rcases List.mem_cons.1 hm with rfl | hm
    · exact absurd hd (by decide)
    · exact (of_plain hname).notMem d hd hm
  · cases before with
    | nil =>
      obtain rfl : name = behind := (List.cons.inj hsplit).2
      exact ⟨c, _, h, List.prefix_rfl⟩
    | cons d before =>
      obtain ⟨-, rfl⟩ := List.cons.inj hsplit
      exact absurd (by decide : isMarkupChar '&' = true) (List.any_eq_false.1 hname '&' (by simp))

theorem escape (text : List Char) : Inert (escape text) := by
  induction text with
  | nil => exact of_plain rfl
  | cons c rest ih =>
    rw [escape_cons]
    refine append ?_ ih
    rcases escapeChar_cases c with h | ⟨h, hc⟩
    · exact .of_mem h
    · rw [h]
      exact of_plain (by rw [List.any_cons, hc, List.any_nil, Bool.or_false])

theorem number (n : Number) : Inert n.text.toList := by
  refine of_plain (List.any_eq_false.2 fun c hc => ?_)
  have hnumeral := IsNumeralText.iff_forall.1 n.isNumeralText_text c hc
  rcases isMarkupChar_cases c with (rfl | rfl | rfl | rfl | rfl) | h
  case inr => simp [h]
  all_goals exact absurd hnumeral (by decide)

/-- Every value is shown as an inert text. The items of an array are joined as they are, and the
whole is escaped. -/
theorem sanitize (v : Value) : Inert (sanitize v) := by
  cases v with
  | null => exact of_plain rfl
  | bool b =>
    cases b with
    | false => exact of_plain rfl
    | true => exact of_plain rfl
  | number n => exact number n
  | string s => exact escape s.toList
  | array items => exact escape (joinedText items)
  | object fields =>
    show Inert objectText
    exact of_plain rfl

end Inert

/-- Escaping replaces each of five characters by its reference, goes through a text part by part,
and can be undone by reading the references back, so that no two texts are escaped alike. Every
value, however nested, is shown as an inert text. -/
theorem escape_reversible_and_inert :
    (∀ text, escape text = text.flatMap fun c => (markupReferences.lookup c).getD [c]) ∧
      (∀ a b, escape (a ++ b) = escape a ++ escape b) ∧
      (∀ text, unescape (escape text) = text) ∧ Function.Injective escape ∧
      ∀ v, Inert (sanitize v) :=
  ⟨escape_eq_replace, escape_append, unescape_escape,
    Function.LeftInverse.injective unescape_escape, Inert.sanitize⟩

end LiveMarkup
