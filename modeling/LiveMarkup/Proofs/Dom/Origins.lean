import LiveMarkup.Proofs.Dom.Planting
import LiveMarkup.Proofs.Dom.Serializing
import LiveMarkup.Proofs.Dom.Traversing

/-!
# The tokens that nodes come from

What grows from tokens is labelled with them: an element with its start tag, a text with the token
that it begins with (`Growth.traced`). Stray end tags, and end tags that close other elements as
well, change which elements are open, but not what has grown. So every step keeps:

* every node is what its token makes, and no two texts are next to each other (`Growth.Stems`);
* in document order, the start tags among the labels are those of the tokens
  (`Growth.startTags_step`), and so are the texts (`Growth.Stems.textOfAll_step`).

What comes next is put behind all that has grown, since the innermost open element is the last one
at each level (`Growth.labelsOfAll_trees_eq`, `Growth.Stems.textOfAll_trees`).
-/

namespace LiveMarkup

open Html (Token)

/-! ## Tokens and what they make -/

namespace Html.Token

/-- Whether a token is a start tag. -/
def isStartTag : Token → Bool
  | startTag _ _ _ => true
  | _ => false

/-- The text of a text token. -/
def text? : Token → Option String
  | text s => some s
  | _ => none

/-- A token makes a node with this content and these children. A void or self-closed element has no
children. A text may go on with those of later tokens. -/
def Makes {β : Type} : Token → Content → List β → Prop
  | startTag name attributes selfClosing, content, children =>
    content = .ofTag name attributes ∧
      (Html.opensContent name.toLower selfClosing = false → children = [])
  | endTag _, _, _ => False
  | text s, content, children => (∃ more, content = .text (s ++ more)) ∧ children = []

theorem Makes.congr {β γ : Type} {token : Token} {content : Content} {ts : List β} {us : List γ}
    (h : token.Makes content ts) (hnil : ts = [] → us = []) : token.Makes content us := by
  cases token with
  | startTag name attributes selfClosing => exact ⟨h.1, fun hv => hnil (h.2 hv)⟩
  | endTag name => exact h
  | text s => exact ⟨h.1, hnil h.2⟩

end Html.Token

namespace Tree

/-- Every node is what the token makes that labels it, and no two texts are next to each other. -/
inductive Stems : Tree Token → Prop
  | node {token : Token} {content : Content} {ts : List (Tree Token)}
    (made : token.Makes content ts) (apart : ts.IsChain Apart) (below : ∀ t ∈ ts, Stems t) :
    Stems (.node token content ts)

/-- Trees of nodes from tokens, of which no two texts are next to each other. -/
structure Siblings (ts : List (Tree Token)) : Prop where
  apart : ts.IsChain Apart
  stems : ∀ t ∈ ts, t.Stems

variable {ts last : List (Tree Token)}

theorem siblings_nil : Siblings [] := ⟨.nil, List.forall_mem_nil _⟩

/-- Behind other trees there may be elements. -/
theorem Siblings.append (h : Siblings ts) (hl : ∀ t ∈ last, t.Stems ∧ ¬t.IsText) :
    Siblings (ts ++ last) := by
  have hlast : last.Pairwise Apart :=
    List.pairwise_of_forall_mem_list fun t ht _ _ hb => (hl t ht).2 hb.1
  refine ⟨List.isChain_append.2 ⟨h.apart, hlast.isChain, fun t _ u hu hb => ?_⟩,
    List.forall_mem_append.2 ⟨h.stems, fun t ht => (hl t ht).1⟩⟩
  exact (hl u (List.mem_of_mem_head? hu)).2 hb.2

theorem Siblings.append_singleton {t : Tree Token} (h : Siblings ts) (ht : t.Stems)
    (hn : ¬t.IsText) : Siblings (ts ++ [t]) :=
  h.append fun _ hu => List.mem_singleton.1 hu ▸ ⟨ht, hn⟩

theorem stems_startTag (name : String) (attributes : List (String × String)) (selfClosing : Bool) :
    (Tree.node (Token.startTag name attributes selfClosing) (.ofTag name attributes) []).Stems :=
  .node ⟨rfl, fun _ => rfl⟩ .nil (List.forall_mem_nil _)

theorem stems_text (s more : String) :
    (Tree.node (Token.text s) (.text (s ++ more)) []).Stems :=
  .node ⟨⟨more, rfl⟩, rfl⟩ .nil (List.forall_mem_nil _)

/-- The first text of joined texts labels the node. -/
theorem Siblings.joinText (h : Siblings ts) (s : String) :
    Siblings (Growth.joinText (.text s) s ts) := by
  have hnew : (Tree.node (Token.text s) (.text s) []).Stems := by
    simpa using stems_text s ""
  obtain ⟨hapart, hstems⟩ := h
  rcases Growth.joinText_cases (.text s) s ts with ⟨init, token, s', us, rfl, hjoin⟩ | ⟨hend, hjoin⟩
  · obtain ⟨hinit, -, hnext⟩ := List.isChain_append.1 hapart
    obtain ⟨hfirst, hlast⟩ := List.forall_mem_append.1 hstems
    -- what is before the joined text is as far from it as from the text before
    rw [hjoin]
    refine ⟨List.isChain_append.2 ⟨hinit, .singleton _, fun t ht u hu => ?_⟩,
      List.forall_mem_append.2 ⟨hfirst, List.forall_mem_singleton.2 ?_⟩⟩
    · obtain rfl := Option.some.inj hu
      have hbefore := hnext t ht _ rfl
      exact fun hb => hbefore ⟨hb.1, trivial⟩
    · obtain ⟨hmade, -, -⟩ := List.forall_mem_singleton.1 hlast
      cases token with
      | text s'' =>
        obtain ⟨⟨more, hmore⟩, rfl⟩ := hmade
        obtain rfl := Content.text.inj hmore
        rw [String.append_assoc]
        exact stems_text s'' (more ++ s)
      | startTag name attributes selfClosing => cases hmade.1
      | endTag name => exact hmade.elim
  · rw [hjoin]
    refine ⟨List.isChain_append.2 ⟨hapart, .singleton _, fun t ht u _ hb => ?_⟩,
      List.forall_mem_append.2 ⟨hstems, List.forall_mem_singleton.2 hnew⟩⟩
    obtain ⟨token, content, us⟩ := t
    cases content with
    | text s' => exact hend token s' us ht
    | element tag attributes => exact hb.1

end Tree

/-- An open element is what its start tag makes, and goes on until an end tag. -/
def Branch.Opens (b : Branch Token) : Prop :=
  ∃ name attributes selfClosing, b.label = .startTag name attributes selfClosing ∧
    b.content = .ofTag name attributes ∧ Html.opensContent name.toLower selfClosing = true

theorem Branch.Opens.tree {b : Branch Token} (hb : b.Opens) (h : Tree.Siblings b.children)
    {last : List (Tree Token)} (hl : ∀ t ∈ last, t.Stems ∧ ¬t.IsText) :
    (b.tree last).Stems ∧ ¬(b.tree last).IsText := by
  obtain ⟨label, content, children⟩ := b
  obtain ⟨name, attributes, selfClosing, rfl, rfl, hopen⟩ := hb
  have hall := h.append hl
  exact ⟨.node ⟨rfl, fun hclosed => absurd (hopen.symm.trans hclosed) (by decide)⟩ hall.apart
    hall.stems, not_false⟩

namespace Growth

/-! ## Order -/

variable {α : Type}

/-- What comes last below the innermost open element is behind everything else. -/
theorem labelsOfAll_enclose_eq (ts : List (Tree α)) (bs : List (Branch α)) :
    Tree.labelsOfAll (enclose ts bs) =
      Tree.labelsOfAll (enclose [] bs) ++ Tree.labelsOfAll ts := by
  induction bs generalizing ts with
  | nil => rfl
  | cons b rest ih =>
    rw [enclose, ih [b.tree ts], enclose, ih [b.tree []]]
    simp [Branch.tree, Tree.labelsOfAll, Tree.labels, Tree.labelsOfAll_append]

/-- In document order, the trees before the place where the next one comes are behind those around
it. -/
theorem labelsOfAll_trees_eq (g : Growth α) :
    Tree.labelsOfAll g.trees =
      Tree.labelsOfAll g.frame.trees ++ Tree.labelsOfAll g.last := by
  obtain ⟨bs, roots⟩ := g
  cases bs with
  | nil => simp [trees, last, frame, edit, enclose, Tree.labelsOfAll]
  | cons b rest =>
    simp only [trees, last, frame, edit, enclose, Tree.labelsOfAll_append]
    rw [labelsOfAll_enclose_eq, labelsOfAll_enclose_eq [_] rest]
    simp [Branch.tree, Tree.labelsOfAll, Tree.labels]

theorem labelsOfAll_trees_edit (f : List (Tree α) → List (Tree α)) (g : Growth α) :
    Tree.labelsOfAll (g.edit f).trees =
      Tree.labelsOfAll g.frame.trees ++ Tree.labelsOfAll (f g.last) := by
  rw [labelsOfAll_trees_eq, frame_edit, last_edit]

theorem labelsOfAll_joinText (a : α) (s : String) (ts : List (Tree α)) :
    Tree.labelsOfAll (joinText a s ts) = Tree.labelsOfAll ts ∨
      Tree.labelsOfAll (joinText a s ts) = Tree.labelsOfAll ts ++ [a] := by
  rcases joinText_cases a s ts with ⟨init, b, s', us, rfl, hjoin⟩ | ⟨-, hjoin⟩
  · exact .inl (by simp [hjoin, Tree.labelsOfAll_append, Tree.labelsOfAll, Tree.labels])
  · exact .inr (by simp [hjoin, Tree.labelsOfAll_append, Tree.labelsOfAll, Tree.labels])

theorem textOfAll_enclose {bs : List (Branch α)} (h : ∀ b ∈ bs, ∀ s, b.content ≠ .text s)
    (ts : List (Tree α)) :
    Tree.textOfAll (enclose ts bs) = Tree.textOfAll (enclose [] bs) ++ Tree.textOfAll ts := by
  induction bs generalizing ts with
  | nil => rw [enclose, enclose, Tree.textOfAll, String.empty_append]
  | cons b rest ih =>
    obtain ⟨hb, hrest⟩ := List.forall_mem_cons.1 h
    obtain ⟨label, content, children⟩ := b
    cases content with
    | text s => exact absurd rfl (hb s)
    | element tag attributes =>
      rw [enclose, ih hrest, enclose, ih hrest [_]]
      simp [Branch.tree, Tree.textOfAll, Tree.text, Dom.textOfAll_append, String.append_assoc]

theorem textOfAll_joinText (a : α) (s : String) (ts : List (Tree α)) :
    Tree.textOfAll (joinText a s ts) = Tree.textOfAll ts ++ s := by
  rcases List.eq_nil_or_concat ts with rfl | ⟨ts, ⟨b, c, us⟩, rfl⟩
  · simp [joinText, Tree.textOfAll, Tree.text]
  · cases c with
    | text s' =>
      simp [joinText, Dom.textOfAll_append, Tree.textOfAll, Tree.text, String.append_assoc]
    | element tag attributes =>
      simp [joinText, Dom.textOfAll_append, Tree.textOfAll, Tree.text, String.append_assoc]

/-! ## Steps -/

/-- The start tags among the labels are those of the tokens. -/
theorem startTags_step (g : Growth Token) (token : Token) :
    (Tree.labelsOfAll (g.step token token).trees).filter Token.isStartTag =
      (Tree.labelsOfAll g.trees).filter Token.isStartTag ++ [token].filter Token.isStartTag := by
  cases token with
  | startTag name attributes selfClosing =>
    have hadd (token : Token) (c : Content) :
        Tree.labelsOfAll (g.edit (· ++ [.node token c []])).trees =
          Tree.labelsOfAll g.trees ++ [token] := by
      rw [labelsOfAll_trees_edit, Tree.labelsOfAll_append, ← List.append_assoc,
        ← labelsOfAll_trees_eq]
      simp [Tree.labelsOfAll, Tree.labels]
    rw [Growth.step]
    split
    · rw [trees_push, hadd, List.filter_append]
    · rw [hadd, List.filter_append]
  | endTag name =>
    rw [Growth.step]
    split
    · rw [trees_closeThrough]
      exact (List.append_nil _).symm
    · exact (List.append_nil _).symm
  | text s =>
    have hnone : [Token.text s].filter Token.isStartTag = [] := rfl
    rw [Growth.step, hnone, List.append_nil]
    split
    · rfl
    · rw [labelsOfAll_trees_edit, labelsOfAll_trees_eq g]
      rcases labelsOfAll_joinText (Token.text s) s g.last with hlast | hlast
      · rw [hlast]
      · rw [hlast, ← List.append_assoc, List.filter_append, hnone, List.append_nil]

/-- All that grew stems from tokens, and open elements are those of start tags. -/
structure Stems (g : Growth Token) : Prop where
  branch : ∀ b ∈ g.openBranches, b.Opens ∧ Tree.Siblings b.children
  roots : Tree.Siblings g.roots

variable {g : Growth Token}

namespace Stems

theorem edit (h : g.Stems) {f : List (Tree Token) → List (Tree Token)}
    (hf : ∀ ts, Tree.Siblings ts → Tree.Siblings (f ts)) : (g.edit f).Stems := by
  obtain ⟨bs, roots⟩ := g
  obtain ⟨hbs, hroots⟩ := h
  cases bs with
  | nil => exact ⟨hbs, hf _ hroots⟩
  | cons b rest =>
    rw [List.forall_mem_cons] at hbs
    exact ⟨List.forall_mem_cons.2 ⟨⟨hbs.1.1, hf _ hbs.1.2⟩, hbs.2⟩, hroots⟩

theorem closeThrough (tag : String) {roots last : List (Tree Token)} {bs : List (Branch Token)}
    (h : (Growth.mk bs roots).Stems) (hl : ∀ t ∈ last, t.Stems ∧ ¬t.IsText) :
    (closeThrough tag roots last bs).Stems := by
  obtain ⟨hbs, hroots⟩ := h
  induction bs generalizing last with
  | nil => exact ⟨hbs, hroots.append hl⟩
  | cons b rest ih =>
    rw [List.forall_mem_cons] at hbs
    obtain ⟨hstems, hn⟩ := hbs.1.1.tree hbs.1.2 hl
    rw [Growth.closeThrough]
    split
    · have hrest : (Growth.mk rest roots).Stems := ⟨hbs.2, hroots⟩
      exact hrest.edit fun ts hts => hts.append_singleton hstems hn
    · exact ih (List.forall_mem_singleton.2 ⟨hstems, hn⟩) hbs.2 hroots

theorem step (h : g.Stems) (token : Token) : (g.step token token).Stems := by
  cases token with
  | startTag name attributes selfClosing =>
    rw [Growth.step]
    split
    · next hopen =>
      exact ⟨List.forall_mem_cons.2 ⟨⟨⟨name, attributes, selfClosing, rfl, rfl, hopen⟩,
        Tree.siblings_nil⟩, h.branch⟩, h.roots⟩
    · exact h.edit fun ts hts =>
        hts.append_singleton (Tree.stems_startTag name attributes selfClosing) not_false
  | endTag name =>
    rw [Growth.step]
    split
    · exact h.closeThrough name.toLower (List.forall_mem_nil _)
    · exact h
  | text s =>
    rw [Growth.step]
    split
    · exact h
    · exact h.edit fun ts hts => hts.joinText s

theorem enclose {last : List (Tree Token)} {bs : List (Branch Token)}
    (h : ∀ b ∈ bs, b.Opens ∧ Tree.Siblings b.children) (hl : ∀ t ∈ last, t.Stems ∧ ¬t.IsText) :
    ∀ t ∈ enclose last bs, t.Stems ∧ ¬t.IsText := by
  induction bs generalizing last with
  | nil => exact hl
  | cons b rest ih =>
    rw [List.forall_mem_cons] at h
    exact ih h.2 (List.forall_mem_singleton.2 (h.1.1.tree h.1.2 hl))

theorem trees (h : g.Stems) : Tree.Siblings g.trees :=
  h.roots.append (enclose h.branch (List.forall_mem_nil _))

theorem ne_text (h : g.Stems) : ∀ b ∈ g.openBranches, ∀ s, b.content ≠ .text s := by
  intro b hb s hs
  obtain ⟨⟨name, attributes, selfClosing, -, hc, -⟩, -⟩ := h.branch b hb
  cases hc.symm.trans hs

/-- The text before the place where the next tree comes is behind that around it. -/
theorem textOfAll_trees (h : g.Stems) :
    Tree.textOfAll g.trees = Tree.textOfAll g.frame.trees ++ Tree.textOfAll g.last := by
  have hne := h.ne_text
  obtain ⟨bs, roots⟩ := g
  cases bs with
  | nil => simp [Growth.trees, last, frame, Growth.edit, Growth.enclose, Tree.textOfAll]
  | cons b rest =>
    obtain ⟨label, content, children⟩ := b
    obtain ⟨hb, hrest⟩ := List.forall_mem_cons.1 hne
    cases content with
    | text s => exact absurd rfl (hb s)
    | element tag attributes =>
      simp only [Growth.trees, last, frame, Growth.edit, Growth.enclose, Dom.textOfAll_append]
      rw [textOfAll_enclose hrest, textOfAll_enclose hrest [_]]
      simp [Branch.tree, Tree.textOfAll, Tree.text, String.append_assoc]

theorem textOfAll_trees_edit (h : g.Stems) {f : List (Tree Token) → List (Tree Token)} {s : String}
    (hedit : (g.edit f).Stems) (hf : Tree.textOfAll (f g.last) = Tree.textOfAll g.last ++ s) :
    Tree.textOfAll (g.edit f).trees = Tree.textOfAll g.trees ++ s := by
  rw [hedit.textOfAll_trees, frame_edit, last_edit, hf, h.textOfAll_trees, String.append_assoc]

/-- A text token adds its text behind the text so far, and no other token adds any. -/
theorem textOfAll_step (h : g.Stems) (token : Token) :
    Tree.textOfAll (g.step token token).trees = Tree.textOfAll g.trees ++ token.text?.getD "" := by
  have hstep := h.step token
  cases token with
  | startTag name attributes selfClosing =>
    have hadd : (g.edit (· ++ [.node (.startTag name attributes selfClosing)
        (.ofTag name attributes) []])).Stems := h.edit fun ts hts =>
          hts.append_singleton (Tree.stems_startTag name attributes selfClosing) not_false
    have htext := h.textOfAll_trees_edit (s := "") hadd (by
      simp [Dom.textOfAll_append, Tree.textOfAll, Tree.text, Content.ofTag])
    rw [Growth.step]
    split
    · rw [trees_push, htext]
      rfl
    · exact htext
  | endTag name =>
    rw [Growth.step]
    split
    · rw [trees_closeThrough]
      exact String.append_empty.symm
    · exact String.append_empty.symm
  | text s =>
    rw [Growth.step] at hstep ⊢
    split at hstep
    · next hempty =>
      have hs : s = "" := String.isEmpty_iff.1 (Bool.and_eq_true_iff.1 hempty).1
      rw [if_pos hempty, hs]
      exact String.append_empty.symm
    · next hempty =>
      rw [if_neg hempty]
      exact h.textOfAll_trees_edit hstep (textOfAll_joinText _ s _)

end Stems

/-! ## Whole lists of tokens -/

/-- What grows from tokens, labelled with them. -/
def traced (tokens : List Token) : Growth Token :=
  tokens.foldl (fun g token => g.step token token) ⟨[], []⟩

theorem bare_traced (tokens : List Token) : (traced tokens).bare = ofTokens tokens := by
  suffices key : ∀ g : Growth Token,
      (tokens.foldl (fun g token => g.step token token) g).bare = tokens.foldl (step ()) g.bare from
    key ⟨[], []⟩
  induction tokens with
  | nil => exact fun _ => rfl
  | cons token rest ih => exact fun g => by rw [List.foldl_cons, ih, bare_step, List.foldl_cons]

/-- What grows from tokens stems from them, and nothing is lost or out of order. -/
theorem stems_traced (tokens : List Token) :
    Tree.Siblings (traced tokens).trees ∧
      (Tree.labelsOfAll (traced tokens).trees).filter Token.isStartTag =
        tokens.filter Token.isStartTag ∧
      Tree.textOfAll (traced tokens).trees = String.join (tokens.filterMap Token.text?) := by
  suffices key : ∀ g : Growth Token, g.Stems →
      (tokens.foldl (fun g token => g.step token token) g).Stems ∧
        (Tree.labelsOfAll (tokens.foldl (fun g token => g.step token token) g).trees).filter
            Token.isStartTag =
          (Tree.labelsOfAll g.trees).filter Token.isStartTag ++ tokens.filter Token.isStartTag ∧
        Tree.textOfAll (tokens.foldl (fun g token => g.step token token) g).trees =
          Tree.textOfAll g.trees ++ String.join (tokens.filterMap Token.text?) by
    have hstart : (⟨[], []⟩ : Growth Token).Stems := ⟨List.forall_mem_nil _, Tree.siblings_nil⟩
    obtain ⟨hstems, htags, htext⟩ := key _ hstart
    refine ⟨hstems.trees, htags, htext.trans ?_⟩
    exact String.empty_append
  induction tokens with
  | nil => exact fun g hg => ⟨hg, (List.append_nil _).symm, String.append_empty.symm⟩
  | cons token rest ih =>
    intro g hg
    obtain ⟨hstems, htags, htext⟩ := ih _ (hg.step token)
    refine ⟨hstems, ?_, ?_⟩
    · rw [List.foldl_cons, htags, startTags_step, List.append_assoc, ← List.filter_append]
      rfl
    · rw [List.foldl_cons, htext, hg.textOfAll_step, String.append_assoc]
      cases htoken : token.text? with
      | none => rw [List.filterMap_cons_none htoken, Option.getD_none, String.empty_append]
      | some s => rw [List.filterMap_cons_some htoken, Option.getD_some, String.join_cons]

end Growth

end LiveMarkup
