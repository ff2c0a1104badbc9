import LiveMarkup.Proofs.Html.NameOrder

/-!
# Markup in its plainest form

What is relied on of a tokenizer (`Html.Tokenizer.Lawful`). Of the many ways to write markup only
one is asked to be read (`Html.Spelled`): names are words in lower case, values stand in double
quotes behind single blanks, and the characters that could be taken for something else are written
as references. Such markup spells tokens: a start tag spells its attributes in the order of their
names, and a text is not followed by another one. Elements whose content is not read as markup are
left out, and so are the characters that a tokenizer may change.
-/

namespace LiveMarkup

namespace Html

variable {c : Char} {name : String}

/-! ## Words and texts -/

/-- A small letter, a digit, or a mark as they stand in names. -/
def isWordChar (c : Char) : Bool := c.isLower || c.isDigit || "-_:.".toList.contains c

/-- A text in lower case that can be a name: it begins with a letter. -/
structure IsWord (s : String) : Prop where
  head : s.toList.head?.any Char.isLower = true
  chars : ∀ c ∈ s.toList, isWordChar c = true

instance : Decidable (IsWord name) :=
  decidable_of_iff (name.toList.head?.any Char.isLower = true ∧ name.toList.all isWordChar = true)
    ⟨fun h => ⟨h.1, List.all_eq_true.1 h.2⟩, fun h => ⟨h.head, List.all_eq_true.2 h.chars⟩⟩

theorem toNat_lt_of_isWordChar (h : isWordChar c = true) : c.toNat < 128 := by
  have hle (last : Char) (hlast : last.toNat < 128) (h : c.val ≤ last.val) : c.toNat < 128 :=
    Nat.lt_of_le_of_lt h hlast
  simp only [isWordChar, Bool.or_eq_true] at h
  rcases h with (h | h) | h
  · exact hle 'z' (by decide) (of_decide_eq_true (Bool.and_eq_true_iff.1 h).2)
  · exact hle '9' (by decide) (of_decide_eq_true (Bool.and_eq_true_iff.1 h).2)
  · have hmarks : "-_:.".toList.all (fun d => d.toNat < 128) = true := by decide
    simpa using List.all_eq_true.1 hmarks c (List.contains_iff_mem.1 h)

/-- What is true of the characters of words is a matter of 128 characters. -/
theorem forall_isWordChar {P : Char → Prop}
    (h : ∀ n < 128, isWordChar (Char.ofNat n) = true → P (Char.ofNat n))
    (hc : isWordChar c = true) : P c := by
  rw [← Char.ofNat_toNat c] at hc ⊢
  exact h c.toNat (by simpa using toNat_lt_of_isWordChar hc) hc

theorem IsWord.toLower_eq (h : IsWord name) : name.toLower = name := by
  have hchar (d : Char) (hd : isWordChar d = true) : d.toLower = d := by
    refine forall_isWordChar (P := fun d => d.toLower = d) ?_ hd
    decide +kernel
  have hmap : name.toList.map Char.toLower = name.toList :=
    (List.map_congr_left fun d hd => hchar d (h.chars d hd)).trans (List.map_id' _)
  rw [← String.toList_inj]
  exact String.toList_map.trans hmap

/-- The references that are written, by their names. -/
def writtenReferences : List (String × Char) :=
  [("amp", '&'), ("lt", '<'), ("gt", '>'), ("quot", '"'), ("nbsp", '\xa0')]

/-- How a text is written. Every character stands for itself or is written as a reference, so that
neither the mark that ends the text nor the one that begins a reference stands for itself. -/
inductive Spells (mark : Char) : List Char → List Char → Prop
  | nil : Spells mark [] []
  | char {c : Char} {written text : List Char} (hmark : c ≠ mark) (hamp : c ≠ '&')
      (hreturn : c ≠ '\r') (hnull : c ≠ '\x00') (h : Spells mark written text) :
      Spells mark (c :: written) (c :: text)
  | reference {name : String} {c : Char} {written text : List Char}
      (hname : (name, c) ∈ writtenReferences) (h : Spells mark written text) :
      Spells mark ('&' :: (name.toList ++ ';' :: written)) (c :: text)

/-- How the attributes of a start tag are written. -/
inductive SpellsAttributes : List Char → List (String × String) → Prop
  | nil : SpellsAttributes [] []
  | cons {name value : String} {written more : List Char} {attributes : List (String × String)}
      (hname : IsWord name) (hvalue : Spells '"' written value.toList)
      (h : SpellsAttributes more attributes) :
      SpellsAttributes (' ' :: (name.toList ++ '=' :: '"' :: (written ++ '"' :: more)))
        ((name, value) :: attributes)

/-! ## Markup -/

/-- Elements whose content is not markup. -/
def rawContentElements : List String :=
  ["iframe", "noembed", "noframes", "noscript", "plaintext", "script", "style", "textarea",
    "title", "xmp"]

/-- Whether the first token is a text. -/
def BeginsWithText : List Token → Prop
  | .text _ :: _ => True
  | _ => False

/-- What markup in its plainest form spells. -/
inductive Spelled : List Char → List Token → Prop
  | nil : Spelled [] []
  | text {s : String} {written rest : List Char} {tokens : List Token} (hne : s ≠ "")
      (hs : Spells '<' written s.toList) (hends : ¬BeginsWithText tokens)
      (h : Spelled rest tokens) : Spelled (written ++ rest) (.text s :: tokens)
  | startTag {name : String} {written rest : List Char} {attributes : List (String × String)}
      {tokens : List Token} (hname : IsWord name)
      (hcontent : rawContentElements.contains name = false)
      (hdistinct : OrderedMap.Distinct attributes)
      (hattributes : SpellsAttributes written attributes) (h : Spelled rest tokens) :
      Spelled ('<' :: (name.toList ++ (written ++ '>' :: rest)))
        (.startTag name (sortAttributes attributes) false :: tokens)
  | endTag {name : String} {rest : List Char} {tokens : List Token} (hname : IsWord name)
      (h : Spelled rest tokens) :
      Spelled ('<' :: '/' :: (name.toList ++ '>' :: rest)) (.endTag name :: tokens)

/-- What is relied on of a tokenizer. -/
structure Tokenizer.Lawful [Tokenizer] : Prop where
  /-- Markup in its plainest form is read as what it spells. -/
  readsSpelled : ∀ {markup tokens}, Spelled markup tokens → Token.ofText markup = tokens
  /-- Whatever is read, attributes are in the order of their names. -/
  inNameOrder : ∀ markup, ∀ token ∈ Token.ofText markup, token.InNameOrder

end Html

end LiveMarkup
