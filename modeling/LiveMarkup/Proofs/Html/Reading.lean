import LiveMarkup.Html.Tokenizer
import LiveMarkup.Proofs.Html.Spelling
import LiveMarkup.Proofs.Text.Reading
import Mathlib.Data.String.Basic

/-!
# The tokenizer is lawful

Markup in its plainest form is read as what it spells (`readTokens_of_spelled`), and whatever is
read, attributes are in the order of their names (`inNameOrder_of_mem_readTokens`).

What is spelled is always followed by a `rest`, and the rest is what is left by the reader: a text
is read up to the tag that ends it (`Spells.readTokens`), a value up to its quote
(`Spells.plain_readQuotedValue`), and attributes up to the end of their tag
(`SpellsAttributes.plain_readAttributes`).
-/

namespace LiveMarkup

namespace Html

variable {c : Char} {cs written text rest seen : List Char} {name : String}
  {attributes : List (String × String)}

/-! ## Words -/

/-- A character of a word has no meaning inside a tag, and is read as it is. -/
theorem plain_of_isWordChar (h : isWordChar c = true) :
    isAttributeNameChar c = true ∧ nameChar c = c ∧ c ≠ '\r' := by
  refine forall_isWordChar (P := fun c => isAttributeNameChar c = true ∧ nameChar c = c ∧ c ≠ '\r')
    ?_ h
  decide +kernel

theorem isTagNameChar_of_isAttributeNameChar (h : isAttributeNameChar c = true) :
    isTagNameChar c = true :=
  (Bool.and_eq_true_iff.1 h).1

theorem IsWord.exists_eq_cons (h : IsWord name) : ∃ c cs, name.toList = c :: cs ∧
    c.isLower = true ∧ isAttributeNameChar c = true ∧
    (∀ d ∈ cs, isAttributeNameChar d = true) ∧ nameOf (c :: cs) = name := by
  have hhead := h.head
  have hchars := h.chars
  cases hname : name.toList with
  | nil =>
    rw [hname] at hhead
    cases hhead
  | cons c cs =>
    rw [hname] at hhead hchars
    have hplain : (c :: cs).map nameChar = c :: cs :=
      (List.map_congr_left fun d hd => (plain_of_isWordChar (hchars d hd)).2.1).trans
        (List.map_id' _)
    refine ⟨c, cs, rfl, hhead, (plain_of_isWordChar (hchars c List.mem_cons_self)).1,
      fun d hd => (plain_of_isWordChar (hchars d (List.mem_cons_of_mem _ hd))).1, ?_⟩
    rw [nameOf, hplain, ← hname, String.ofList_toList]

/-- The longest run of characters of a name goes to its end. -/
theorem takeWhile_append_cons {p : Char → Bool} (hcs : ∀ d ∈ cs, p d = true) (hc : p c = false) :
    (cs ++ c :: rest).takeWhile p = cs := by
  rw [List.takeWhile_append_of_pos hcs, List.takeWhile_cons_of_neg (by simp [hc]), List.append_nil]

theorem dropWhile_append_cons {p : Char → Bool} (hcs : ∀ d ∈ cs, p d = true) (hc : p c = false) :
    (cs ++ c :: rest).dropWhile p = c :: rest := by
  rw [List.dropWhile_append_of_pos hcs, List.dropWhile_cons_of_neg (by simp [hc])]

/-! ## Characters -/

theorem referenced?_of_written (h : (name, c) ∈ writtenReferences) :
    referenced? name.toList = some [c] := by
  simp only [writtenReferences, List.mem_cons, Prod.mk.injEq, List.not_mem_nil, or_false] at h
  rcases h with ⟨rfl, rfl⟩ | ⟨rfl, rfl⟩ | ⟨rfl, rfl⟩ | ⟨rfl, rfl⟩ | ⟨rfl, rfl⟩ <;> rfl

/-- A reference that is written is read, whatever follows it. -/
theorem exists_readReference?_eq (h : (name, c) ∈ writtenReferences) (inAttribute : Bool)
    (rest : List Char) :
    ∃ left, readReference? inAttribute (name.toList ++ ';' :: rest) = some ([c], left) ∧
      left.1 = rest := by
  have hnames : (writtenReferences.all fun e => e.1.toList.all Char.isAlphanum) = true := by
    decide +kernel
  have hword := List.all_eq_true.1 (List.all_eq_true.1 hnames _ h)
  have hend : Char.isAlphanum ';' = false := by decide
  have hbehind : (name.toList ++ ';' :: rest).dropWhile Char.isAlphanum = ';' :: rest :=
    dropWhile_append_cons hword hend
  obtain ⟨left, hafter, hleft⟩ := exists_afterRun?_eq hbehind
  have hread : readReference? inAttribute (name.toList ++ ';' :: rest) =
      readName? inAttribute (name.toList ++ ';' :: rest) := by
    simp only [writtenReferences, List.mem_cons, Prod.mk.injEq, List.not_mem_nil, or_false] at h
    rcases h with ⟨rfl, -⟩ | ⟨rfl, -⟩ | ⟨rfl, -⟩ | ⟨rfl, -⟩ | ⟨rfl, -⟩ <;> rfl
  refine ⟨left.toRest, ?_, hleft⟩
  rw [hread, readName?]
  simp only [takeWhile_append_cons hword hend, referenced?_of_written h, hafter]

variable {mode : String → Bool → ContentMode}

/-- A text is read as it is spelled. -/
theorem Spells.readTokens (h : Spells '<' written text) (seen rest : List Char) :
    readTokens mode seen (written ++ rest) = readTokens mode (text.reverse ++ seen) rest := by
  induction h generalizing seen with
  | nil => rfl
  | char hlt hamp _ _ _ ih =>
    rw [List.cons_append, Html.readTokens, if_neg hlt, if_neg hamp, ih, List.reverse_cons,
      List.append_assoc]
    rfl
  | @reference name c written text hname _ ih =>
    obtain ⟨left, hread, hleft⟩ := exists_readReference?_eq hname false (written ++ rest)
    rw [List.cons_append, List.append_assoc, List.cons_append, Html.readTokens,
      if_neg (by decide), if_pos rfl, hread]
    simp only
    rw [hleft, ih]
    simp

/-- A value is read as it is spelled, up to its quote. -/
theorem Spells.plain_readQuotedValue (h : Spells '"' written text) (seen rest : List Char) :
    (readQuotedValue '"' seen (written ++ '"' :: rest)).plain =
      .ok (String.ofList (seen.reverse ++ text), rest) := by
  induction h generalizing seen with
  | nil =>
    rw [List.nil_append, readQuotedValue, if_pos rfl, List.append_nil]
    rfl
  | @char c written text hquote hamp _ hnull _ ih =>
    have hread : readCharacter true c (written ++ '"' :: rest) = ([c], .all _) := by
      rw [readCharacter, if_neg hamp, replaceNull, if_neg hnull]
    have hbehind : seen.reverse ++ c :: text = (c :: seen).reverse ++ text := by simp
    rw [List.cons_append, readQuotedValue, if_neg hquote, Reading.plain_cons, Reading.plain_past,
      hread, hbehind]
    exact ih (c :: seen)
  | @reference name c written text hname _ ih =>
    obtain ⟨left, hread, hleft⟩ := exists_readReference?_eq hname true (written ++ '"' :: rest)
    have hbehind : seen.reverse ++ c :: text = (c :: seen).reverse ++ text := by simp
    rw [List.cons_append, List.append_assoc, List.cons_append, readQuotedValue,
      if_neg (by decide), Reading.plain_cons, Reading.plain_past, readCharacter, if_pos rfl, hread,
      Option.getD_some, hbehind]
    simp only
    rw [hleft]
    exact ih (c :: seen)

/-! ## Attributes -/

theorem Spells.plain_readAttributeValue (h : Spells '"' written text) (rest : List Char) :
    (readAttributeValue ('"' :: (written ++ '"' :: rest))).plain =
      .ok (String.ofList text, rest) := by
  rw [readAttributeValue, Reading.plain_toScan, Reading.plain_cons]
  exact h.plain_readQuotedValue [] rest

theorem plain_readAttribute (hname : IsWord name) (hcs : name.toList = c :: cs) {value : String}
    (hvalue : Spells '"' written value.toList) (rest : List Char) :
    (readAttribute c (cs ++ '=' :: '"' :: (written ++ '"' :: rest))).plain =
      .ok ((name, value), rest) := by
  obtain ⟨c', cs', hname', -, -, hchars, hnameOf⟩ := hname.exists_eq_cons
  obtain ⟨rfl, rfl⟩ := List.cons.inj (hcs.symm.trans hname')
  have hend : isAttributeNameChar '=' = false := by decide
  generalize hbehind : written ++ '"' :: rest = behind
  have hread (text : List Char) (htext : text = '"' :: behind) :
      (readAttributeValue text).plain = .ok (value, rest) := by
    rw [htext, ← hbehind, hvalue.plain_readAttributeValue, String.ofList_toList]
  have hdrop : ((cs ++ '=' :: '"' :: behind).dropWhile isAttributeNameChar).dropWhile isTagBlank =
      '=' :: '"' :: behind := by
    rw [dropWhile_append_cons hchars hend]
    exact List.dropWhile_cons_of_neg (by decide)
  obtain ⟨mark, hafter, hmark⟩ := exists_afterRun?_eq hdrop
  have hquote : (mark.1.dropWhile isTagBlank) = '"' :: behind := by
    rw [hmark]
    exact List.dropWhile_cons_of_neg (by decide)
  rw [readAttribute]
  simp only [Rest.dropWhile] at *
  simp only [hafter, takeWhile_append_cons hchars hend, hnameOf]
  rw [Reading.plain_map_eq_ok_iff]
  refine ⟨value, ?_, rfl⟩
  rw [Reading.plain_cons, Reading.plain_past, Scan.plain_behind, Scan.plain_past]
  exact hread _ hquote

theorem plain_readAttributes_blank (rest : List Char) :
    (readAttributes (' ' :: rest)).plain = (readAttributes rest).plain := by
  rw [readAttributes.eq_def]
  exact Reading.plain_cons _

/-- Attributes are read as they are spelled, up to the end of their tag. -/
theorem SpellsAttributes.plain_readAttributes (h : SpellsAttributes written attributes)
    (rest : List Char) :
    (readAttributes (written ++ '>' :: rest)).plain = .ok ((attributes, false), rest) := by
  induction h with
  | nil =>
    rw [List.nil_append, readAttributes.eq_def]
    rfl
  | @cons name value written more attributes hname hvalue _ ih =>
    obtain ⟨c, cs, hcs, -, hc, -, -⟩ := hname.exists_eq_cons
    obtain ⟨hblank, hslash, hend, -⟩ : isTagBlank c = false ∧ c ≠ '/' ∧ c ≠ '>' ∧ c ≠ '=' := by
      simpa [isAttributeNameChar, isTagNameChar, and_assoc] using hc
    have hread := plain_readAttribute hname hcs hvalue (more ++ '>' :: rest)
    have hbehind : ' ' :: (name.toList ++ '=' :: '"' :: (written ++ '"' :: more)) ++ '>' :: rest =
        ' ' :: c :: (cs ++ '=' :: '"' :: (written ++ '"' :: (more ++ '>' :: rest))) := by
      rw [hcs]
      simp
    rw [hbehind, plain_readAttributes_blank, readAttributes.eq_def]
    simp only [hblank, hslash, hend, Bool.false_eq_true, if_false]
    rw [Reading.plain_andThen, hread]
    simp only
    rw [Reading.plain_toScan, Reading.plain_map_eq_ok_iff]
    exact ⟨_, ih, rfl⟩

/-! ## Tags -/

/-- A tag is read as it is spelled, with its attributes in order. -/
theorem plain_readTag (hname : IsWord name) (hcs : name.toList = c :: cs)
    (h : SpellsAttributes written attributes) (rest : List Char) :
    (readTag c (cs ++ (written ++ '>' :: rest))).plain =
      .ok (⟨name, sortAttributes attributes, false⟩, rest) := by
  obtain ⟨c', cs', hcs', -, -, hchars, hnameOf⟩ := hname.exists_eq_cons
  obtain ⟨rfl, rfl⟩ := List.cons.inj (hcs.symm.trans hcs')
  have hchars' : ∀ d ∈ cs, isTagNameChar d = true := fun d hd =>
    isTagNameChar_of_isAttributeNameChar (hchars d hd)
  have hread := h.plain_readAttributes rest
  obtain ⟨d, more, hmore, hd⟩ : ∃ d more, written ++ '>' :: rest = d :: more ∧
      isTagNameChar d = false := by
    cases h with
    | nil => exact ⟨'>', rest, rfl, by decide⟩
    | cons => exact ⟨' ', _, rfl, by decide⟩
  have hbehind (text : List Char) (htext : text = d :: more) :
      (readAttributes text).plain = .ok ((attributes, false), rest) := by
    rw [htext, ← hmore, hread]
  rw [hmore, readTag]
  simp only [takeWhile_append_cons hchars' hd, hnameOf]
  rw [Reading.plain_map_eq_ok_iff]
  refine ⟨(attributes, false), ?_, rfl⟩
  rw [Reading.plain_cons, Reading.plain_past]
  exact hbehind _ (dropWhile_append_cons hchars' hd)

theorem isAlpha_of_isLower (h : c.isLower = true) : c.isAlpha = true :=
  Bool.or_eq_true_iff.2 (.inr h)

/-- What is behind such a start tag is read as markup. -/
theorem contentMode_eq (hname : IsWord name) (h : rawContentElements.contains name = false) :
    contentMode name false = .markup := by
  have hraw : ∀ s ∈ rawTextElements ++ plainTextElements, rawContentElements.contains s = true := by
    decide
  have hne (s : String) (hs : s ∈ rawTextElements ++ plainTextElements) : name ≠ s := by
    rintro rfl
    rw [hraw _ hs] at h
    cases h
  have hscript : isRawText name = false := by
    rw [isRawText, List.contains_eq_mem, decide_eq_false_iff_not]
    exact fun hs => hne name (List.mem_append_left _ hs) rfl
  have hplain : plainTextElements.contains name = false := by
    rw [List.contains_eq_mem, decide_eq_false_iff_not]
    exact fun hs => hne name (List.mem_append_right _ hs) rfl
  rw [contentMode, hname.toLower_eq]
  simp only [hscript, hplain, Bool.false_eq_true, if_false, ite_self]

/-- A start tag is read as it is spelled, with its attributes in order. -/
theorem readTokens_startTag (hname : IsWord name) (hcontent : mode name false = .markup)
    (h : SpellsAttributes written attributes) (seen rest : List Char) :
    readTokens mode seen ('<' :: (name.toList ++ (written ++ '>' :: rest))) =
      flushText seen (.startTag name (sortAttributes attributes) false ::
        readTokens mode [] rest) := by
  obtain ⟨c, cs, hcs, hlower, -, -, -⟩ := hname.exists_eq_cons
  obtain ⟨left, htag, hleft⟩ := Reading.exists_of_plain (plain_readTag hname hcs h rest)
  have hopening : Opening.read (c :: (cs ++ (written ++ '>' :: rest))) =
      .startTag ⟨name, sortAttributes attributes, false⟩ left.toRest := by
    rw [Opening.read.eq_def]
    simp only [isAlpha_of_isLower hlower, if_true, htag]
  rw [hcs, List.cons_append, readTokens, if_pos rfl, hopening]
  simp only [hcontent, readContent, Rest.all, Shorter.toRest, hleft]
  rfl

/-- An end tag is read as it is spelled. -/
theorem readTokens_endTag (hname : IsWord name) (seen rest : List Char) :
    readTokens mode seen ('<' :: '/' :: (name.toList ++ '>' :: rest)) =
      flushText seen (.endTag name :: readTokens mode [] rest) := by
  obtain ⟨c, cs, hcs, hlower, -, -, -⟩ := hname.exists_eq_cons
  have hread : (readTag c (cs ++ '>' :: rest)).plain = .ok (⟨name, [], false⟩, rest) :=
    plain_readTag hname hcs .nil rest
  obtain ⟨left, htag, hleft⟩ := Reading.exists_of_plain hread
  have hopening : Opening.read ('/' :: c :: (cs ++ '>' :: rest)) =
      .endTag ⟨name, [], false⟩ left.toRest.cons := by
    have hslash : Char.isAlpha '/' = false := by decide
    rw [Opening.read.eq_def]
    simp only [hslash, Bool.false_eq_true, if_false, if_true, isAlpha_of_isLower hlower]
    simp only [htag]
  rw [hcs, List.cons_append, readTokens, if_pos rfl, hopening]
  simp only [Rest.cons, Shorter.toRest, hleft]

/-! ## Markup -/

variable {markup : List Char} {tokens : List Token}

/-- A text does not go on in what spells none. -/
theorem flushText_of_ne {s : String} (h : s ≠ "") (tokens : List Token) :
    flushText s.toList.reverse tokens = .text s :: tokens := by
  have hne : ¬s.toList.reverse.isEmpty = true := by simpa using h
  rw [flushText, if_neg hne, List.reverse_reverse, String.ofList_toList]

/-- Markup is read as what it spells, and a text right before it ends there unless it spells a text
first. -/
theorem readTokens_of_spelled (h : Spelled markup tokens) :
    readTokens contentMode [] markup = tokens ∧
      (¬BeginsWithText tokens → ∀ seen,
        readTokens contentMode seen markup = flushText seen tokens) := by
  -- what is read behind every text says in particular what is read alone
  have hboth {markup : List Char} {tokens : List Token}
      (h : ∀ seen, readTokens contentMode seen markup = flushText seen tokens) :
      readTokens contentMode [] markup = tokens ∧ (¬BeginsWithText tokens → ∀ seen,
        readTokens contentMode seen markup = flushText seen tokens) :=
    ⟨h [], fun _ => h⟩
  induction h with
  | nil => exact hboth fun seen => by rw [readTokens]
  | text hne hs hends _ ih =>
    refine ⟨?_, fun hno => absurd trivial hno⟩
    rw [hs.readTokens, List.append_nil, ih.2 hends, flushText_of_ne hne]
  | startTag hname hcontent _ hattributes _ ih =>
    refine hboth fun seen => ?_
    rw [readTokens_startTag hname (contentMode_eq hname hcontent) hattributes, ih.1]
  | endTag hname _ ih =>
    refine hboth fun seen => ?_
    rw [readTokens_endTag hname, ih.1]

/-! ## Line breaks -/

theorem unifyLineBreaks_eq (h : '\r' ∉ cs) : unifyLineBreaks cs = cs := by
  fun_induction unifyLineBreaks cs <;> simp_all

theorem IsWord.not_mem (h : IsWord name) : '\r' ∉ name.toList := fun hm =>
  (plain_of_isWordChar (h.chars _ hm)).2.2 rfl

theorem Spells.not_mem {mark : Char} (h : Spells mark written text) : '\r' ∉ written := by
  have hreferences : ∀ e ∈ writtenReferences, '\r' ∉ e.1.toList := by decide
  induction h with
  | nil => exact List.not_mem_nil
  | char _ _ hreturn _ _ ih => simp [hreturn.symm, ih]
  | reference hname _ ih => simp [hreferences _ hname, ih]

theorem SpellsAttributes.not_mem (h : SpellsAttributes written attributes) : '\r' ∉ written := by
  induction h with
  | nil => exact List.not_mem_nil
  | cons hname hvalue _ ih => simp [hname.not_mem, hvalue.not_mem, ih]

/-- There is no carriage return in such markup, so that its line breaks stay as they are. -/
theorem Spelled.not_mem (h : Spelled markup tokens) : '\r' ∉ markup := by
  induction h with
  | nil => exact List.not_mem_nil
  | text _ hs _ _ ih => simp [hs.not_mem, ih]
  | startTag hname _ _ hattributes _ ih => simp [hname.not_mem, hattributes.not_mem, ih]
  | endTag hname _ ih => simp [hname.not_mem, ih]

/-! ## The order of attributes -/

theorem inNameOrder_of_readTag {c : Char} {rest left : List Char} {tag : Tag}
    (h : (readTag c rest).plain = .ok (tag, left)) : InNameOrder tag.attributes := by
  rw [readTag] at h
  obtain ⟨⟨attributes, selfClosing⟩, -, rfl⟩ := Reading.plain_map_eq_ok_iff.1 h
  exact inNameOrder_sortAttributes attributes

theorem inNameOrder_of_read {text : List Char} {tag : Tag} {left : Rest text}
    (h : Opening.read text = .startTag tag left) : InNameOrder tag.attributes := by
  cases text with
  | nil => cases h
  | cons c rest =>
    rw [Opening.read.eq_def] at h
    simp only at h
    split at h
    · split at h
      · next htag =>
        cases h
        exact inNameOrder_of_readTag (congrArg Reading.plain htag)
      · cases h
    · grind

theorem forall_mem_flushText {P : Token → Prop} {seen : List Char} {tokens : List Token}
    (htext : ∀ s, P (.text s)) (h : ∀ token ∈ tokens, P token) :
    ∀ token ∈ flushText seen tokens, P token := by
  rw [flushText]
  split
  · exact h
  · exact List.forall_mem_cons.2 ⟨htext _, h⟩

theorem inNameOrder_of_mem_readTokens (seen text : List Char) :
    ∀ token ∈ readTokens mode seen text, token.InNameOrder := by
  have hflush {seen : List Char} {tokens : List Token}
      (h : ∀ token ∈ tokens, token.InNameOrder) :
      ∀ token ∈ flushText seen tokens, token.InNameOrder :=
    forall_mem_flushText (fun _ => trivial) h
  fun_induction readTokens mode seen text with
  | case1 | case4 => exact hflush (List.forall_mem_nil _)
  | case2 | case7 | case8 | case9 => assumption
  | case3 => exact hflush ‹_›
  | case5 => exact hflush (List.forall_mem_cons.2 ⟨trivial, ‹_›⟩)
  | case6 seen rest tag left hread content behind hcontent ih =>
    exact hflush (List.forall_mem_cons.2 ⟨inNameOrder_of_read hread, hflush ih⟩)

/-- What is relied on of a tokenizer holds of this one. -/
theorem Tokenizer.lawful : Tokenizer.Lawful where
  readsSpelled h := by
    change readTokens contentMode [] (unifyLineBreaks _) = _
    rw [unifyLineBreaks_eq h.not_mem]
    exact (readTokens_of_spelled h).1
  inNameOrder _ := inNameOrder_of_mem_readTokens [] _

end Html

end LiveMarkup
