import LiveMarkup.Dom.Tree
import LiveMarkup.Proofs.Html.Spelling
import Mathlib.Data.List.Chain
import Mathlib.Data.String.Basic

/-!
# What written markup spells

What is written for a tree spells the tokens of the tree (`Tree.spelled_html`): for an element a
start tag with the attributes in the order of their names, what is below it, and an end tag unless
the element is void; for a text the text itself. This holds of trees that can be told from their
markup (`Tree.Writable`): names are words, texts are neither empty nor next to each other, and
nothing is below texts and void elements.

Every character of a text or an attribute value is written as itself or as a reference
(`Html.Escapes`), so that what is written spells the text (`Html.spells_writeWith`).
-/

namespace LiveMarkup

/-! ## Trees that can be told from their markup -/

namespace Html

/-- There is neither a carriage return nor a null character. -/
def IsClean (s : String) : Prop := '\r' ∉ s.toList ∧ '\x00' ∉ s.toList

instance {s : String} : Decidable (IsClean s) := inferInstanceAs (Decidable (_ ∧ _))

/-- The name is a word, and the value is clean. -/
def IsPlainAttribute (e : String × String) : Prop := IsWord e.1 ∧ IsClean e.2

instance {e : String × String} : Decidable (IsPlainAttribute e) :=
  inferInstanceAs (Decidable (_ ∧ _))

/-- An element that is told from its tags, and whose content is markup. -/
structure IsPlainElement (tag : String) (attributes : OrderedMap String String) : Prop where
  word : IsWord tag
  content : rawContentElements.contains tag = false
  distinct : attributes.Distinct
  plain : ∀ e ∈ attributes, IsPlainAttribute e

theorem isPlainElement_iff {tag : String} {attributes : OrderedMap String String} :
    IsPlainElement tag attributes ↔
      IsWord tag ∧ rawContentElements.contains tag = false ∧ (attributes.map Prod.fst).Nodup ∧
        ∀ e ∈ attributes, IsPlainAttribute e :=
  ⟨fun h => ⟨h.word, h.content, h.distinct, h.plain⟩, fun h => ⟨h.1, h.2.1, h.2.2.1, h.2.2.2⟩⟩

instance {tag : String} {attributes : OrderedMap String String} :
    Decidable (IsPlainElement tag attributes) :=
  decidable_of_iff _ isPlainElement_iff.symm

end Html

/-- A node that can be told from its markup. -/
def Content.Writable : Content → Prop
  | .text s => s ≠ "" ∧ Html.IsClean s
  | .element tag attributes => Html.IsPlainElement tag attributes

instance : ∀ c : Content, Decidable c.Writable
  | .text _ => inferInstanceAs (Decidable (_ ∧ _))
  | .element tag attributes => inferInstanceAs (Decidable (Html.IsPlainElement tag attributes))

/-- Whether there is nothing below such a node: it is a text or a void element. -/
def Content.isLeaf : Content → Bool
  | .text _ => true
  | .element tag _ => Html.isVoid tag

namespace Tree

variable {α β : Type}

/-- Whether the root is a text. -/
def IsText : Tree α → Prop
  | node _ (.text _) _ => True
  | node _ (.element _ _) _ => False

instance : ∀ t : Tree α, Decidable t.IsText
  | node _ (.text _) _ => inferInstanceAs (Decidable True)
  | node _ (.element _ _) _ => inferInstanceAs (Decidable False)

/-- One of two trees is no text, so that they can be next to each other. -/
def Apart (t : Tree α) (u : Tree β) : Prop := ¬(t.IsText ∧ u.IsText)

instance (t : Tree α) (u : Tree β) : Decidable (t.Apart u) := inferInstanceAs (Decidable ¬(_ ∧ _))

mutual

/-- The tree can be told from its markup. -/
def Writable : Tree α → Prop
  | node _ c ts => c.Writable ∧ (c.isLeaf = true → ts = []) ∧ ts.IsChain Apart ∧ WritableAll ts

/-- All trees can be told from their markup. -/
def WritableAll : List (Tree α) → Prop
  | [] => True
  | t :: ts => Writable t ∧ WritableAll ts

end

mutual

/-- Whether a tree can be told from its markup is decidable. -/
def decidableWritable : ∀ t : Tree α, Decidable t.Writable
  | node _ c ts =>
    haveI := decidableWritableAll ts
    inferInstanceAs
      (Decidable (c.Writable ∧ (c.isLeaf = true → ts = []) ∧ ts.IsChain Apart ∧ WritableAll ts))

/-- Whether all trees can be told from their markup is decidable. -/
def decidableWritableAll : ∀ ts : List (Tree α), Decidable (WritableAll ts)
  | [] => inferInstanceAs (Decidable True)
  | t :: ts =>
    haveI := decidableWritable t
    haveI := decidableWritableAll ts
    inferInstanceAs (Decidable (t.Writable ∧ WritableAll ts))

end

instance (t : Tree α) : Decidable t.Writable := decidableWritable t

mutual

/-- The tokens of a tree. -/
def tokens : Tree α → List Html.Token
  | node _ (.text s) _ => [.text s]
  | node _ (.element tag attributes) ts =>
    .startTag tag (Html.sortAttributes attributes) false ::
      if Html.isVoid tag then [] else tokensOfAll ts ++ [.endTag tag]

/-- The tokens of trees, one behind the other. -/
def tokensOfAll : List (Tree α) → List Html.Token
  | [] => []
  | t :: ts => tokens t ++ tokensOfAll ts

end

end Tree

/-! ## Texts and attributes -/

namespace Html

variable {cs : List Char} {f : Char → String} {mark : Char}

/-- The characters that are written for others. -/
def escaped (f : Char → String) (cs : List Char) : List Char := cs.flatMap fun c => (f c).toList

theorem toList_writeWith (f : Char → String) (s : String) :
    (Tree.writeWith f s).toList = escaped f s.toList := by
  have hgo (cs : List Char) (acc : String) :
      (cs.foldl (fun acc c => acc ++ f c) acc).toList = acc.toList ++ escaped f cs := by
    induction cs generalizing acc with
    | nil => simp [escaped]
    | cons c cs ih =>
      rw [List.foldl_cons, ih, String.toList_append, List.append_assoc, escaped, escaped,
        List.flatMap_cons]
  rw [Tree.writeWith, String.foldl_eq_foldl_toList, hgo]
  rfl

theorem writeWith_eq (f : Char → String) (s : String) :
    Tree.writeWith f s = String.ofList (escaped f s.toList) := by
  rw [← String.toList_inj, toList_writeWith, String.toList_ofList]

/-- Every character is written as itself or as a reference, so that neither the mark that ends the
text nor the one that begins a reference is written for itself. -/
def Escapes (f : Char → String) (mark : Char) : Prop :=
  ∀ c, (f c).toList = [c] ∧ c ≠ mark ∧ c ≠ '&' ∨
    ∃ name, (name, c) ∈ writtenReferences ∧ (f c).toList = '&' :: (name.toList ++ [';'])

theorem escapes_escapeText : Escapes Tree.escapeText '<' := fun c => by
  unfold Tree.escapeText
  split
  · exact .inr ⟨"amp", by decide, by decide⟩
  · exact .inr ⟨"lt", by decide, by decide⟩
  · exact .inr ⟨"gt", by decide, by decide⟩
  · exact .inr ⟨"nbsp", by decide, by decide⟩
  · next hamp hlt _ _ => exact .inl ⟨String.toList_singleton c, hlt, hamp⟩

theorem escapes_escapeAttribute : Escapes Tree.escapeAttribute '"' := fun c => by
  unfold Tree.escapeAttribute
  split
  · exact .inr ⟨"amp", by decide, by decide⟩
  · exact .inr ⟨"quot", by decide, by decide⟩
  · exact .inr ⟨"nbsp", by decide, by decide⟩
  · next hamp hquot _ => exact .inl ⟨String.toList_singleton c, hquot, hamp⟩

/-- What is written for a clean text spells the text. -/
theorem Escapes.spells (hf : Escapes f mark) (hreturn : '\r' ∉ cs) (hnull : '\x00' ∉ cs) :
    Spells mark (escaped f cs) cs := by
  induction cs with
  | nil => exact .nil
  | cons c cs ih =>
    rw [List.mem_cons, not_or] at hreturn hnull
    have hrest := ih hreturn.2 hnull.2
    have hcons : escaped f (c :: cs) = (f c).toList ++ escaped f cs := List.flatMap_cons
    rw [hcons]
    rcases hf c with ⟨hwritten, hmark, hamp⟩ | ⟨name, hname, hwritten⟩
    · rw [hwritten]
      exact .char hmark hamp (Ne.symm hreturn.1) (Ne.symm hnull.1) hrest
    · rw [hwritten, List.cons_append, List.append_assoc]
      exact .reference hname hrest

theorem spells_writeWith (hf : Escapes f mark) {s : String} (hs : IsClean s) :
    Spells mark (Tree.writeWith f s).toList s.toList := by
  rw [toList_writeWith]
  exact hf.spells hs.1 hs.2

theorem spellsAttributes_writeAttributes {attributes : List (String × String)}
    (h : ∀ e ∈ attributes, IsPlainAttribute e) :
    SpellsAttributes (Tree.writeAttributes attributes).toList attributes := by
  induction attributes with
  | nil => exact .nil
  | cons e more ih =>
    rw [List.forall_mem_cons] at h
    have hwritten : (Tree.writeAttributes (e :: more)).toList = ' ' :: (e.1.toList ++ '=' :: '"' ::
        ((Tree.writeWith Tree.escapeAttribute e.2).toList ++ '"' ::
          (Tree.writeAttributes more).toList)) := by
      simp [Tree.writeAttributes]
    rw [hwritten]
    exact .cons h.1.1 (spells_writeWith escapes_escapeAttribute h.1.2) (ih h.2)

variable {tag : String} {attributes : OrderedMap String String} {rest : List Char}
  {tokens : List Token}

theorem IsPlainElement.isRawText_eq (h : IsPlainElement tag attributes) :
    isRawText tag = false := by
  have hraw : ∀ s ∈ rawTextElements, rawContentElements.contains s = true := by decide
  rw [isRawText, List.contains_eq_mem, decide_eq_false_iff_not]
  intro hm
  have hcontent := h.content
  rw [hraw tag hm] at hcontent
  cases hcontent

theorem IsPlainElement.spelled_startTag (h : IsPlainElement tag attributes)
    (hrest : Spelled rest tokens) :
    Spelled ((Tree.startTag tag attributes).toList ++ rest)
      (.startTag tag (sortAttributes attributes) false :: tokens) := by
  have hwritten : (Tree.startTag tag attributes).toList ++ rest =
      '<' :: (tag.toList ++ ((Tree.writeAttributes attributes).toList ++ '>' :: rest)) := by
    simp [Tree.startTag]
  rw [hwritten]
  exact .startTag h.word h.content h.distinct (spellsAttributes_writeAttributes h.plain) hrest

theorem IsWord.spelled_endTag (h : IsWord tag) (hrest : Spelled rest tokens) :
    Spelled (("</" ++ tag ++ ">").toList ++ rest) (.endTag tag :: tokens) := by
  have hwritten : ("</" ++ tag ++ ">").toList ++ rest =
      '<' :: '/' :: (tag.toList ++ '>' :: rest) := by
    simp
  rw [hwritten]
  exact .endTag h hrest

end Html

/-! ## Trees -/

namespace Tree

variable {α : Type} {t : Tree α} {ts : List (Tree α)} {rest : List Char} {tokens : List Html.Token}

theorem not_beginsWithText_tokens : ∀ {t : Tree α}, ¬t.IsText → ∀ tokens,
    ¬Html.BeginsWithText (t.tokens ++ tokens)
  | node _ (.text _) _, ht, _ => (ht trivial).elim
  | node _ (.element _ _) _, _, _ => id

theorem not_beginsWithText_tokensOfAll (hhead : ∀ t ∈ ts.head?, ¬t.IsText)
    (h : ¬Html.BeginsWithText tokens) : ¬Html.BeginsWithText (tokensOfAll ts ++ tokens) := by
  cases ts with
  | nil => exact h
  | cons t ts =>
    rw [tokensOfAll, List.append_assoc]
    exact not_beginsWithText_tokens (hhead t rfl) _

mutual

/-- A written tree spells its tokens, if no text follows a text. -/
theorem spelled_markup : ∀ {t : Tree α} {rest : List Char} {tokens : List Html.Token}, t.Writable →
    (t.IsText → ¬Html.BeginsWithText tokens) → Html.Spelled rest tokens →
    Html.Spelled ((t.markup false).toList ++ rest) (t.tokens ++ tokens)
  | node _ (.text s) ts, rest, tokens, ⟨⟨hne, hs⟩, _⟩, hends, hrest => by
    rw [markup, if_neg Bool.false_ne_true]
    exact .text hne (Html.spells_writeWith Html.escapes_escapeText hs) (hends trivial) hrest
  | node a (.element tag attributes) ts, rest, tokens, ⟨he, _, hapart, hts⟩, _, hrest => by
    cases hv : Html.isVoid tag with
    | true =>
      rw [markup, if_pos hv, Tree.tokens, if_pos hv]
      exact he.spelled_startTag hrest
    | false =>
      -- what is below ends before the end tag, whatever is behind it
      have hend := he.word.spelled_endTag hrest
      have hbelow := spelled_markupOfAll hts hapart id hend
      have hwritten : ((node a (.element tag attributes) ts).markup false).toList ++ rest =
          (startTag tag attributes).toList ++ ((markupOfAll false ts).toList ++
            (("</" ++ tag ++ ">").toList ++ rest)) := by
        simp [markup, hv, he.isRawText_eq]
      have htokens : (node a (.element tag attributes) ts).tokens ++ tokens =
          .startTag tag (Html.sortAttributes attributes) false ::
            (tokensOfAll ts ++ .endTag tag :: tokens) := by
        simp [Tree.tokens, hv]
      rw [hwritten, htokens]
      exact he.spelled_startTag hbelow

/-- Written trees spell their tokens, if no text follows a text. -/
theorem spelled_markupOfAll : ∀ {ts : List (Tree α)} {rest : List Char} {tokens : List Html.Token},
    WritableAll ts → ts.IsChain Apart → ¬Html.BeginsWithText tokens → Html.Spelled rest tokens →
    Html.Spelled ((markupOfAll false ts).toList ++ rest) (tokensOfAll ts ++ tokens)
  | [], _, _, _, _, _, hrest => hrest
  | t :: ts, rest, tokens, h, hapart, hends, hrest => by
    obtain ⟨hhead, hapart⟩ := List.isChain_cons.1 hapart
    have hts := spelled_markupOfAll h.2 hapart hends hrest
    rw [markupOfAll, String.toList_append, List.append_assoc, tokensOfAll, List.append_assoc]
    refine spelled_markup h.1 (fun ht => ?_) hts
    exact not_beginsWithText_tokensOfAll (fun u hu hu' => hhead u hu ⟨ht, hu'⟩) hends

end

/-- The markup of a tree spells the tokens of the tree. -/
theorem spelled_html (h : t.Writable) : Html.Spelled t.html.toList t.tokens := by
  have hspelled := spelled_markup h (fun _ => id) Html.Spelled.nil
  rwa [List.append_nil, List.append_nil] at hspelled

end Tree

end LiveMarkup
