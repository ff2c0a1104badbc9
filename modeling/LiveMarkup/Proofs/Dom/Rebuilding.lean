import LiveMarkup.Proofs.Dom.Planting
import LiveMarkup.Proofs.Dom.Serializing
import LiveMarkup.Proofs.Html.Reading

/-!
# Building a tree again

From the tokens of a tree grows the tree itself, with the attributes in the order of their names
(`Growth.foldl_tokens`). A lawful tokenizer reads these tokens from the markup of the tree, and
whatever it reads has its attributes in that order
(`Html.Tokenizer.Lawful.nameOrderedAll_treesOf`), so that such a tree grows again from its markup
without a difference (`Dom.parseFragment_html`).
-/

namespace LiveMarkup

/-! ## The order of attributes -/

/-- The attributes are in the order of their names. -/
def Content.NameOrdered : Content → Prop
  | .text _ => True
  | .element _ attributes => Html.InNameOrder attributes

instance : ∀ c : Content, Decidable c.NameOrdered
  | .text _ => inferInstanceAs (Decidable True)
  | .element _ _ => inferInstanceAs (Decidable (List.Pairwise _ _))

/-- The node with its attributes in the order of their names. -/
def Content.tidy : Content → Content
  | .text s => .text s
  | .element tag attributes => .element tag (Html.sortAttributes attributes)

theorem Content.NameOrdered.tidy_eq : ∀ {c : Content}, c.NameOrdered → c.tidy = c
  | .text _, _ => rfl
  | .element tag _, h => congrArg (Content.element tag) h.sortAttributes_eq

theorem Content.Writable.tidy_alike : ∀ {c : Content}, c.Writable → c.tidy.Alike c
  | .text _, _ => rfl
  | .element _ _, h => ⟨rfl, Html.find?_sortAttributes h.distinct⟩

namespace Tree

variable {α β : Type}

mutual

/-- The attributes of all elements are in the order of their names. -/
def NameOrdered : Tree α → Prop
  | node _ c ts => c.NameOrdered ∧ NameOrderedAll ts

/-- All trees have their attributes in the order of their names. -/
def NameOrderedAll : List (Tree α) → Prop
  | [] => True
  | t :: ts => NameOrdered t ∧ NameOrderedAll ts

end

mutual

/-- Whether the attributes of all elements are in order is decidable. -/
def decidableNameOrdered : ∀ t : Tree α, Decidable t.NameOrdered
  | node _ c ts =>
    haveI := decidableNameOrderedAll ts
    inferInstanceAs (Decidable (c.NameOrdered ∧ NameOrderedAll ts))

/-- Whether all trees have their attributes in order is decidable. -/
def decidableNameOrderedAll : ∀ ts : List (Tree α), Decidable (NameOrderedAll ts)
  | [] => inferInstanceAs (Decidable True)
  | t :: ts =>
    haveI := decidableNameOrdered t
    haveI := decidableNameOrderedAll ts
    inferInstanceAs (Decidable (t.NameOrdered ∧ NameOrderedAll ts))

end

instance (t : Tree α) : Decidable t.NameOrdered := decidableNameOrdered t

mutual

/-- The tree without its labels, with all attributes in the order of their names. -/
def tidy : Tree α → Tree Unit
  | node _ c ts => node () c.tidy (tidyAll ts)

/-- The trees without their labels, with all attributes in the order of their names. -/
def tidyAll : List (Tree α) → List (Tree Unit)
  | [] => []
  | t :: ts => tidy t :: tidyAll ts

end

mutual

theorem NameOrdered.tidy_eq : ∀ {t : Tree α}, t.NameOrdered → t.tidy = t.bare
  | node _ _ _, h => by rw [tidy, bare, h.1.tidy_eq, NameOrderedAll.tidyAll_eq h.2]

theorem NameOrderedAll.tidyAll_eq : ∀ {ts : List (Tree α)}, NameOrderedAll ts →
    tidyAll ts = bareAll ts
  | [], _ => rfl
  | _ :: _, h => by rw [tidyAll, bareAll, h.1.tidy_eq, NameOrderedAll.tidyAll_eq h.2]

end

mutual

theorem Writable.tidy_alike : ∀ {t : Tree α}, t.Writable → t.tidy.Alike t
  | node _ _ _, ⟨hc, _, _, hts⟩ => ⟨hc.tidy_alike, WritableAll.tidyAll_alikeAll hts⟩

theorem WritableAll.tidyAll_alikeAll : ∀ {ts : List (Tree α)}, WritableAll ts →
    AlikeAll (tidyAll ts) ts
  | [], _ => trivial
  | _ :: _, h => ⟨h.1.tidy_alike, WritableAll.tidyAll_alikeAll h.2⟩

end

mutual

/-- The labels make no difference to the markup. -/
theorem markup_bare (raw : Bool) : ∀ t : Tree α, t.bare.markup raw = t.markup raw
  | node _ (.text _) _ => rfl
  | node _ (.element tag attributes) ts => by rw [bare, markup, markup, markupOfAll_bareAll]

theorem markupOfAll_bareAll (raw : Bool) : ∀ ts : List (Tree α),
    markupOfAll raw (bareAll ts) = markupOfAll raw ts
  | [] => rfl
  | t :: ts => by rw [bareAll, markupOfAll, markupOfAll, markup_bare, markupOfAll_bareAll]

end

mutual

theorem nameOrdered_bare : ∀ {t : Tree α}, t.bare.NameOrdered ↔ t.NameOrdered
  | node _ _ _ => and_congr_right fun _ => nameOrderedAll_bareAll

theorem nameOrderedAll_bareAll : ∀ {ts : List (Tree α)},
    NameOrderedAll (bareAll ts) ↔ NameOrderedAll ts
  | [] => .rfl
  | _ :: _ => and_congr nameOrdered_bare nameOrderedAll_bareAll

end

theorem html_eq_of_bare_eq {t : Tree α} {u : Tree β} (h : t.bare = u.bare) : t.html = u.html := by
  rw [html, html, ← markup_bare false t, h, markup_bare]

theorem exists_of_bareAll_eq_singleton {ts : List (Tree α)} {u : Tree Unit}
    (h : bareAll ts = [u]) : ∃ t, ts = [t] ∧ t.bare = u := by
  cases ts with
  | nil => cases h
  | cons t ts =>
    obtain ⟨ht, hts⟩ := List.cons.inj h
    cases ts with
    | nil => exact ⟨t, rfl, ht⟩
    | cons u ts => cases hts

theorem isText_tidy : ∀ {t : Tree α}, t.tidy.IsText ↔ t.IsText
  | node _ (.text _) _ => .rfl
  | node _ (.element _ _) _ => .rfl

theorem nameOrderedAll_iff {ts : List (Tree α)} :
    NameOrderedAll ts ↔ ∀ t ∈ ts, t.NameOrdered := by
  induction ts with
  | nil => simp [NameOrderedAll]
  | cons t ts ih => rw [NameOrderedAll, ih, List.forall_mem_cons]

theorem nameOrderedAll_append_iff {ts us : List (Tree α)} :
    NameOrderedAll (ts ++ us) ↔ NameOrderedAll ts ∧ NameOrderedAll us := by
  simp only [nameOrderedAll_iff, List.forall_mem_append]

end Tree

/-! ## Growing from the tokens of a tree -/

/-- A tag that is a word, with attributes in order, is the tag of an element as it is. -/
theorem Content.ofTag_eq {tag : String} {attributes : OrderedMap String String}
    (htag : Html.IsWord tag) (h : attributes.Distinct) :
    Content.ofTag tag attributes = .element tag attributes := by
  rw [Content.ofTag, htag.toLower_eq, OrderedMap.foldl_put_eq_append (by rwa [List.nil_append]),
    List.nil_append]

namespace Growth

variable {α : Type}

theorem edit_edit (f f' : List (Tree α) → List (Tree α)) (g : Growth α) :
    (g.edit f).edit f' = g.edit fun ts => f' (f ts) := by
  obtain ⟨bs, roots⟩ := g
  cases bs <;> rfl

theorem edit_append_nil (g : Growth α) : g.edit (· ++ []) = g := by
  obtain ⟨bs, roots⟩ := g
  cases bs <;> simp [edit]

/-- Text behind something else makes a node. -/
theorem joinText_of_apart {a : α} {s : String} {ts : List (Tree α)}
    (h : ∀ t ∈ ts.getLast?, ¬t.IsText) : joinText a s ts = ts ++ [.node a (.text s) []] := by
  rcases joinText_cases a s ts with ⟨init, b, s', us, rfl, -⟩ | ⟨-, hjoin⟩
  · exact (h (.node b (.text s') us) (by simp) trivial).elim
  · exact hjoin

/-- An end tag closes the element that was opened before what is inside it. -/
theorem foldl_append_endTag {a : α} {tag : String} {b : Branch α} {inner : List Html.Token}
    {us : List (Tree α)} {g : Growth α} (htag : b.hasTag tag.toLower = true)
    (hinner : inner.foldl (step a) (g.push b) = (g.push b).edit (· ++ us)) :
    (inner ++ [Html.Token.endTag tag]).foldl (step a) (g.push b) = g.edit (· ++ [b.tree us]) := by
  have hany : ((g.push b).edit (· ++ us)).openBranches.any (Branch.hasTag tag.toLower) = true := by
    rw [push, edit, List.any_cons, Bool.or_eq_true]
    exact .inl htag
  have hclose : closeThrough tag.toLower g.roots [] ((g.push b).edit (· ++ us)).openBranches =
      g.edit (· ++ [.node b.label b.content (b.children ++ us ++ [])]) := if_pos htag
  rw [List.foldl_append, hinner, List.foldl_cons, List.foldl_nil, step, if_pos hany]
  rw [List.append_nil] at hclose
  exact hclose

mutual

/-- From the tokens of a tree grows the tree, if it does not join the text before it. -/
theorem foldl_tokens : ∀ {t : Tree α}, t.Writable → ∀ g : Growth Unit,
    (∀ u ∈ g.last.getLast?, u.Apart t) →
    t.tokens.foldl (step ()) g = g.edit (· ++ [t.tidy])
  | .node _ (.text s) ts, ⟨⟨hs, _⟩, hleaf, _⟩, g, hg => by
    obtain rfl := hleaf rfl
    have hne : ¬(s.isEmpty && !g.openBranches.isEmpty) = true := by simp [hs]
    have hlast : ∀ u ∈ g.last.getLast?, ¬u.IsText := fun u hu ht => hg u hu ⟨ht, trivial⟩
    rw [Tree.tokens, List.foldl_cons, List.foldl_nil, step, if_neg hne,
      edit_joinText_eq (joinText_of_apart hlast)]
    rfl
  | .node _ (.element tag attributes) ts, ⟨he, hleaf, hapart, hts⟩, g, _ => by
    have hcontent := Content.ofTag_eq he.word
      (Html.inNameOrder_sortAttributes attributes).distinct
    rw [Tree.tokens, List.foldl_cons, step, he.word.toLower_eq, Html.opensContent, Bool.false_or,
      hcontent]
    cases hv : Html.isVoid tag with
    | true =>
      obtain rfl := hleaf hv
      rfl
    | false =>
      -- nothing is below the element when it is opened, so that no text can be joined
      have hbelow := foldl_tokensOfAll hts hapart
        (g.push ⟨(), .element tag (Html.sortAttributes attributes), []⟩) (by simp [last, push])
      have htag : Branch.hasTag tag.toLower
          (⟨(), .element tag (Html.sortAttributes attributes), []⟩ : Branch Unit) = true := by
        rw [he.word.toLower_eq]
        exact beq_self_eq_true tag
      exact foldl_append_endTag htag hbelow

theorem foldl_tokensOfAll : ∀ {ts : List (Tree α)}, Tree.WritableAll ts → ts.IsChain Tree.Apart →
    ∀ g : Growth Unit, (∀ u ∈ g.last.getLast?, ∀ t ∈ ts.head?, u.Apart t) →
    (Tree.tokensOfAll ts).foldl (step ()) g = g.edit (· ++ Tree.tidyAll ts)
  | [], _, _, g, _ => (edit_append_nil g).symm
  | t :: ts, h, hapart, g, hg => by
    obtain ⟨hhead, hapart⟩ := List.isChain_cons.1 hapart
    have hlast : ∀ u ∈ (g.edit (· ++ [t.tidy])).last.getLast?, ∀ v ∈ ts.head?, u.Apart v := by
      intro u hu v hv
      rw [last_edit, List.getLast?_concat, Option.mem_some_iff] at hu
      rw [← hu, Tree.Apart, Tree.isText_tidy]
      exact hhead v hv
    rw [Tree.tokensOfAll, List.foldl_append, foldl_tokens h.1 g fun u hu => hg u hu t rfl,
      foldl_tokensOfAll h.2 hapart _ hlast, edit_edit]
    simp [Tree.tidyAll]

end

theorem trees_ofTokens_tokens {t : Tree α} (h : t.Writable) :
    (ofTokens t.tokens).trees = [t.tidy] := by
  rw [ofTokens, foldl_tokens h _ (by simp [last])]
  rfl

/-! ## What grows from tokens in order -/

theorem nameOrderedAll_enclose_iff (ts : List (Tree α)) (bs : List (Branch α)) :
    Tree.NameOrderedAll (enclose ts bs) ↔
      Tree.NameOrderedAll ts ∧ Tree.NameOrderedAll (enclose [] bs) := by
  induction bs generalizing ts with
  | nil => rw [enclose, enclose, Tree.NameOrderedAll, and_true]
  | cons b rest ih =>
    rw [enclose, ih, enclose, ih [b.tree []]]
    simp only [Branch.tree, Tree.NameOrderedAll, Tree.NameOrdered, Tree.nameOrderedAll_append_iff]
    tauto

/-- What is in order is in order at the place where the next tree comes, and around it. -/
theorem nameOrderedAll_trees_edit_iff {f : List (Tree α) → List (Tree α)} {g : Growth α} :
    Tree.NameOrderedAll (g.edit f).trees ↔
      Tree.NameOrderedAll (f g.last) ∧ Tree.NameOrderedAll g.frame.trees := by
  obtain ⟨bs, roots⟩ := g
  cases bs with
  | nil => simp [trees, edit, last, frame, enclose, Tree.NameOrderedAll]
  | cons b rest =>
    simp only [trees, edit, last, frame, enclose, Tree.nameOrderedAll_append_iff]
    rw [nameOrderedAll_enclose_iff, nameOrderedAll_enclose_iff [_] rest]
    simp only [Branch.tree, Tree.NameOrderedAll, Tree.NameOrdered, List.append_nil]
    tauto

theorem nameOrderedAll_trees_edit {f : List (Tree α) → List (Tree α)} {g : Growth α}
    (h : Tree.NameOrderedAll g.trees)
    (hf : ∀ ts, Tree.NameOrderedAll ts → Tree.NameOrderedAll (f ts)) :
    Tree.NameOrderedAll (g.edit f).trees := by
  rw [← edit_append_nil g, nameOrderedAll_trees_edit_iff, List.append_nil] at h
  exact nameOrderedAll_trees_edit_iff.2 ⟨hf _ h.1, h.2⟩

theorem nameOrderedAll_joinText (a : α) (s : String) (ts : List (Tree α))
    (h : Tree.NameOrderedAll ts) : Tree.NameOrderedAll (joinText a s ts) := by
  rcases joinText_cases a s ts with ⟨init, b, s', us, rfl, hjoin⟩ | ⟨-, hjoin⟩
  · obtain ⟨hinit, ht, -⟩ := Tree.nameOrderedAll_append_iff.1 h
    rw [hjoin]
    exact Tree.nameOrderedAll_append_iff.2 ⟨hinit, ⟨trivial, ht.2⟩, trivial⟩
  · rw [hjoin]
    exact Tree.nameOrderedAll_append_iff.2 ⟨h, ⟨trivial, trivial⟩, trivial⟩

/-- A token in order adds what is in order. -/
theorem nameOrderedAll_trees_step (a : α) {g : Growth α} {token : Html.Token}
    (h : Tree.NameOrderedAll g.trees) (ht : token.InNameOrder) :
    Tree.NameOrderedAll (g.step a token).trees := by
  cases token with
  | startTag name attributes selfClosing =>
    have hput : attributes.foldl (fun m e => OrderedMap.put m e.1 e.2) [] = attributes :=
      OrderedMap.foldl_put_eq_append ht.distinct
    have hcontent : (Content.ofTag name attributes).NameOrdered := by
      rw [Content.ofTag, hput]
      exact ht
    have hnode : Tree.NameOrderedAll [.node a (.ofTag name attributes) []] :=
      ⟨⟨hcontent, trivial⟩, trivial⟩
    have hadd := nameOrderedAll_trees_edit h fun ts hts =>
      Tree.nameOrderedAll_append_iff.2 ⟨hts, hnode⟩
    rw [step]
    split
    · rw [trees_push]
      exact hadd
    · exact hadd
  | endTag name =>
    rw [step]
    split
    · rw [trees_closeThrough]
      exact h
    · exact h
  | text s =>
    rw [step]
    split
    · exact h
    · exact nameOrderedAll_trees_edit h (nameOrderedAll_joinText a s)

theorem nameOrderedAll_trees_foldl {g : Growth Unit} {tokens : List Html.Token}
    (h : Tree.NameOrderedAll g.trees) (ht : ∀ token ∈ tokens, token.InNameOrder) :
    Tree.NameOrderedAll (tokens.foldl (step ()) g).trees := by
  induction tokens generalizing g with
  | nil => exact h
  | cons token rest ih =>
    rw [List.forall_mem_cons] at ht
    exact ih (nameOrderedAll_trees_step () h ht.1) ht.2

end Growth

/-! ## Reading markup again -/

/-- Every tree that is read has its attributes in the order of their names. -/
theorem Html.Tokenizer.Lawful.nameOrderedAll_treesOf [Html.Tokenizer]
    (h : Html.Tokenizer.Lawful) (markup : List Char) : Tree.NameOrderedAll (Html.treesOf markup) :=
  Growth.nameOrderedAll_trees_foldl (g := ⟨[], []⟩) trivial (h.inNameOrder markup)

namespace Dom

variable {α : Type}

/-- Building from the tokens of a tree makes the tree again. -/
theorem exists_build_tokens {dom : Dom} (hs : dom.Sound) {t : Tree α} (ht : t.Writable) :
    ∃ root made, (dom.build t.tokens).2 = [root] ∧
      (dom.build t.tokens).1.tree? root = some made ∧ made.Alike t ∧
      (t.NameOrdered → (dom.build t.tokens).1.outerHtml root = t.html) := by
  obtain ⟨new, hroots, hbare, hplants⟩ := plants_build hs t.tokens
  rw [Growth.trees_ofTokens_tokens ht] at hbare
  obtain ⟨made, rfl, hmade⟩ := Tree.exists_of_bareAll_eq_singleton hbare
  have htree := hplants.tree?_eq (List.mem_singleton_self made)
  refine ⟨made.label, made, hroots, htree, ?_, fun hordered => ?_⟩
  · exact (Tree.copies_bare made).alike.symm.trans (hmade ▸ ht.tidy_alike)
  · rw [outerHtml, htree, Option.map_some, Option.getD_some]
    exact Tree.html_eq_of_bare_eq (hmade.trans hordered.tidy_eq)

/-- Reading the markup of a tree with a lawful tokenizer builds the tree again. -/
theorem parseFragment_html [Html.Tokenizer] (hlawful : Html.Tokenizer.Lawful) {dom : Dom}
    (hs : dom.Sound) {t : Tree α} (ht : t.Writable) :
    Html.Token.ofText t.html.toList = t.tokens ∧
    (∃ root made, (dom.parseFragment t.html.toList).2 = [root] ∧
      (dom.parseFragment t.html.toList).1.tree? root = some made ∧ made.Alike t ∧
      (t.NameOrdered → (dom.parseFragment t.html.toList).1.outerHtml root = t.html)) ∧
    ∀ markup, ∀ root ∈ (dom.parseFragment markup).2, ∃ read,
      (dom.parseFragment markup).1.tree? root = some read ∧ read.NameOrdered := by
  have htokens : Html.Token.ofText t.html.toList = t.tokens :=
    hlawful.readsSpelled (Tree.spelled_html ht)
  refine ⟨htokens, ?_, fun markup root hroot => ?_⟩
  · rw [parseFragment, htokens]
    exact exists_build_tokens hs ht
  · obtain ⟨new, hroots, hbare, hplants⟩ := plants_parseFragment hs markup
    have hordered : Tree.NameOrderedAll new := by
      rw [← Tree.nameOrderedAll_bareAll, hbare]
      exact hlawful.nameOrderedAll_treesOf markup
    rw [hroots] at hroot
    obtain ⟨read, hread, rfl⟩ := List.mem_map.1 hroot
    exact ⟨read, hplants.tree?_eq hread, Tree.nameOrderedAll_iff.1 hordered read hread⟩

/-- A paragraph with attributes, references and a void element is read and built again. -/
theorem parseFragment_html_of_paragraph :
    let t : Tree Unit := .node () (.element "p" [("class", "a \"b\""), ("id", "x<y")])
      [.node () (.text "1 < 2 & 3") [], .node () (.element "br" []) [], .node () (.text "\xa0") [],
        .node () (.element "em" []) [.node () (.text "z") []]]
    Html.Tokenizer.Lawful ∧ Dom.empty.Sound ∧ t.Writable ∧ t.NameOrdered ∧
      t.html = "<p class=\"a &quot;b&quot;\" id=\"x<y\">1 &lt; 2 &amp; 3<br>&nbsp;<em>z</em></p>" ∧
      ∃ root made, (Dom.empty.parseFragment t.html.toList).2 = [root] ∧
        (Dom.empty.parseFragment t.html.toList).1.tree? root = some made ∧ made.Alike t ∧
        (Dom.empty.parseFragment t.html.toList).1.outerHtml root = t.html := by
  intro t
  have ht : t.Writable := by decide +kernel
  have hordered : t.NameOrdered := by decide +kernel
  obtain ⟨-, ⟨root, made, hroots, htree, halike, hhtml⟩, -⟩ :=
    parseFragment_html Html.Tokenizer.lawful sound_empty ht
  have hmarkup : t.html =
      "<p class=\"a &quot;b&quot;\" id=\"x<y\">1 &lt; 2 &amp; 3<br>&nbsp;<em>z</em></p>" := by
    simp only [t, Tree.html, Tree.markup, Tree.markupOfAll, Tree.startTag, Tree.writeAttributes,
      Html.writeWith_eq]
    decide +kernel
  exact ⟨Html.Tokenizer.lawful, sound_empty, ht, hordered, hmarkup, root, made, hroots, htree,
    halike, hhtml hordered⟩

end Dom

end LiveMarkup
