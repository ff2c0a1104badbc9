import LiveMarkup.Dom.Fragment
import LiveMarkup.Proofs.Dom.Alignment

/-!
# Trees that grow from tokens

What is built from tokens, said without an arena. A `Growth` holds the open elements, each with the
trees below it so far, and the roots that are complete. Each token changes what is below the
innermost open element (`Growth.edit`), opens an element or closes some (`Growth.step`).

* `Html.treesOf` is the list of trees that a markup is read as.
* `Growth.trees_closeThrough`: closing elements makes no difference to the trees.
* `Growth.bare_step`: neither do the labels of the nodes.
* `Html.wellFormedAll_treesOf`: the trees are wellformed.
-/

namespace LiveMarkup

/-! ## Trees without labels -/

namespace Tree

variable {α β : Type}

mutual

/-- The tree without its labels. -/
def bare : Tree α → Tree Unit
  | node _ c ts => node () c (bareAll ts)

/-- The trees without their labels. -/
def bareAll : List (Tree α) → List (Tree Unit)
  | [] => []
  | t :: ts => bare t :: bareAll ts

end

theorem bareAll_append (ts us : List (Tree α)) : bareAll (ts ++ us) = bareAll ts ++ bareAll us := by
  induction ts with
  | nil => rfl
  | cons t ts ih => rw [List.cons_append, bareAll, bareAll, ih, List.cons_append]

mutual

theorem copies_bare : ∀ t : Tree α, t.bare.Copies t
  | node _ _ ts => ⟨rfl, copiesAll_bareAll ts⟩

theorem copiesAll_bareAll : ∀ ts : List (Tree α), CopiesAll (bareAll ts) ts
  | [] => trivial
  | t :: ts => ⟨copies_bare t, copiesAll_bareAll ts⟩

end

theorem alike_of_bare_eq {t : Tree α} {u : Tree β} (h : t.bare = u.bare) : t.Alike u :=
  (copies_bare t).alike.symm.trans (h ▸ (copies_bare u).alike)

theorem wellFormed_of_bare {t : Tree α} (h : t.bare.WellFormed) : t.WellFormed :=
  (copies_bare t).wellFormed h

end Tree

/-! ## Growing -/

/-- An open element, with the trees below it so far. -/
structure Branch (α : Type) where
  label : α
  content : Content
  children : List (Tree α)

/-- Trees under construction: the open elements, the innermost first, and the roots that are
complete. -/
structure Growth (α : Type) where
  openBranches : List (Branch α)
  roots : List (Tree α)

/-- The element of a start tag. -/
def Content.ofTag (name : String) (attributes : List (String × String)) : Content :=
  .element name.toLower (attributes.foldl (fun m e => OrderedMap.put m e.1 e.2) [])

variable {α : Type}

namespace Branch

/-- The tree of an element, given what comes last below it. -/
def tree (b : Branch α) (last : List (Tree α)) : Tree α :=
  .node b.label b.content (b.children ++ last)

/-- Whether the element has a tag. -/
def hasTag (tag : String) (b : Branch α) : Bool :=
  match b.content with
  | .element t _ => t == tag
  | .text _ => false

/-- The element without labels. -/
def bare (b : Branch α) : Branch Unit := ⟨(), b.content, Tree.bareAll b.children⟩

end Branch

namespace Growth

/-- The roots above trees that come last below the innermost open element. -/
def enclose (last : List (Tree α)) : List (Branch α) → List (Tree α)
  | [] => last
  | b :: rest => enclose [b.tree last] rest

/-- The trees so far. -/
def trees (g : Growth α) : List (Tree α) := g.roots ++ enclose [] g.openBranches

/-- Changes the trees below the innermost open element, or the roots if there is none. -/
def edit (f : List (Tree α) → List (Tree α)) (g : Growth α) : Growth α :=
  match g.openBranches with
  | [] => { g with roots := f g.roots }
  | b :: rest => { g with openBranches := { b with children := f b.children } :: rest }

/-- Opens an element. -/
def push (b : Branch α) (g : Growth α) : Growth α := { g with openBranches := b :: g.openBranches }

/-- Text behind trees: it is joined to text right before it. -/
def joinText (a : α) (s : String) (ts : List (Tree α)) : List (Tree α) :=
  match ts.getLast? with
  | some (.node b (.text s') us) => ts.dropLast ++ [.node b (.text (s' ++ s)) us]
  | _ => ts ++ [.node a (.text s) []]

/-- Closes the innermost element of a tag with all elements inside, above trees that come last. -/
def closeThrough (tag : String) (roots last : List (Tree α)) : List (Branch α) → Growth α
  | [] => ⟨[], roots ++ last⟩
  | b :: rest =>
    if b.hasTag tag then (Growth.mk rest roots).edit (· ++ [b.tree last])
    else closeThrough tag roots [b.tree last] rest

/-- Goes on with a token; a node that it makes gets the label. -/
def step (a : α) (g : Growth α) : Html.Token → Growth α
  | .startTag name attributes selfClosing =>
    if Html.opensContent name.toLower selfClosing then g.push ⟨a, .ofTag name attributes, []⟩
    else g.edit (· ++ [.node a (.ofTag name attributes) []])
  | .endTag name =>
    if g.openBranches.any (Branch.hasTag name.toLower) then
      closeThrough name.toLower g.roots [] g.openBranches
    else g
  | .text s => if s.isEmpty && !g.openBranches.isEmpty then g else g.edit (joinText a s)

/-- What grows from tokens. -/
def ofTokens (tokens : List Html.Token) : Growth Unit := tokens.foldl (step ()) ⟨[], []⟩

end Growth

/-- The trees that a markup is read as. -/
def Html.treesOf [Html.Tokenizer] (markup : List Char) : List (Tree Unit) :=
  (Growth.ofTokens (Html.Token.ofText markup)).trees

namespace Growth

/-! ## The trees so far -/

/-- What is added to the innermost branch is found inside all open branches. -/
theorem trees_edit_append (g : Growth α) (last : List (Tree α)) :
    (g.edit (· ++ last)).trees = g.roots ++ enclose last g.openBranches := by
  obtain ⟨open?, roots⟩ := g
  cases open? with
  | nil => simp [edit, trees, enclose]
  | cons b rest => simp [edit, trees, enclose, Branch.tree]

theorem trees_push (a : α) (c : Content) (g : Growth α) :
    (g.push ⟨a, c, []⟩).trees = (g.edit (· ++ [.node a c []])).trees := by
  rw [trees_edit_append]
  rfl

theorem trees_closeThrough (tag : String) (roots last : List (Tree α)) (bs : List (Branch α)) :
    (closeThrough tag roots last bs).trees = roots ++ enclose last bs := by
  induction bs generalizing last with
  | nil => simp [closeThrough, trees, enclose]
  | cons b rest ih =>
    rw [closeThrough, enclose]
    split
    · exact trees_edit_append _ _
    · exact ih _

/-! ## Labels -/

/-- The growth without labels. -/
def bare (g : Growth α) : Growth Unit := ⟨g.openBranches.map Branch.bare, Tree.bareAll g.roots⟩

theorem bareAll_enclose (last : List (Tree α)) (bs : List (Branch α)) :
    Tree.bareAll (enclose last bs) = enclose (Tree.bareAll last) (bs.map Branch.bare) := by
  induction bs generalizing last with
  | nil => rfl
  | cons b rest ih =>
    rw [enclose, ih, List.map_cons, enclose]
    simp [Branch.tree, Branch.bare, Tree.bareAll, Tree.bare, Tree.bareAll_append]

theorem trees_bare (g : Growth α) : g.bare.trees = Tree.bareAll g.trees := by
  rw [trees, trees, Tree.bareAll_append, bareAll_enclose]
  rfl

theorem bare_edit {f : List (Tree α) → List (Tree α)} {f' : List (Tree Unit) → List (Tree Unit)}
    (h : ∀ ts, Tree.bareAll (f ts) = f' (Tree.bareAll ts)) (g : Growth α) :
    (g.edit f).bare = g.bare.edit f' := by
  obtain ⟨bs, roots⟩ := g
  cases bs with
  | nil => simp [edit, bare, h]
  | cons b rest => simp [edit, bare, Branch.bare, h]

theorem bareAll_append_singleton (t : Tree α) (ts : List (Tree α)) :
    Tree.bareAll (ts ++ [t]) = Tree.bareAll ts ++ [t.bare] := by
  rw [Tree.bareAll_append]
  rfl

theorem bare_edit_append (t : Tree α) (g : Growth α) :
    (g.edit (· ++ [t])).bare = g.bare.edit (· ++ [t.bare]) :=
  bare_edit (bareAll_append_singleton t) g

/-- Text is joined to the last tree, if that is a text, and makes a node otherwise. -/
theorem joinText_cases (a : α) (s : String) (ts : List (Tree α)) :
    (∃ init b s' us, ts = init ++ [.node b (.text s') us] ∧
        joinText a s ts = init ++ [.node b (.text (s' ++ s)) us]) ∨
      (∀ b s' us, ts.getLast? ≠ some (.node b (.text s') us)) ∧
        joinText a s ts = ts ++ [.node a (.text s) []] := by
  rw [joinText]
  split
  · next b s' us hlast =>
    exact .inl ⟨ts.dropLast, b, s', us, (List.dropLast_append_getLast? _ hlast).symm, rfl⟩
  · next hother => exact .inr ⟨hother, rfl⟩

theorem bareAll_joinText (a : α) (s : String) (ts : List (Tree α)) :
    Tree.bareAll (joinText a s ts) = joinText () s (Tree.bareAll ts) := by
  rcases List.eq_nil_or_concat ts with rfl | ⟨ts, ⟨b, c, us⟩, rfl⟩
  · rfl
  · cases c with
    | text s' => simp [joinText, bareAll_append_singleton, Tree.bare]
    | element tag attributes => simp [joinText, Tree.bareAll_append, Tree.bareAll, Tree.bare]

theorem hasTag_bare (tag : String) (b : Branch α) : b.bare.hasTag tag = b.hasTag tag := rfl

/-- To close branches does not look at labels. -/
theorem bare_closeThrough (tag : String) (roots last : List (Tree α)) (bs : List (Branch α)) :
    (closeThrough tag roots last bs).bare =
      closeThrough tag (Tree.bareAll roots) (Tree.bareAll last) (bs.map Branch.bare) := by
  induction bs generalizing last with
  | nil => simp [closeThrough, bare, Tree.bareAll_append]
  | cons b rest ih =>
    have htree : (b.tree last).bare = b.bare.tree (Tree.bareAll last) := by
      simp [Branch.tree, Branch.bare, Tree.bare, Tree.bareAll_append]
    rw [List.map_cons, closeThrough, closeThrough, hasTag_bare]
    split
    · rw [bare_edit_append, htree]
      rfl
    · rw [ih, Tree.bareAll, Tree.bareAll, htree]

/-- The labels make no difference to what grows. -/
theorem bare_step (a : α) (g : Growth α) (token : Html.Token) :
    (g.step a token).bare = g.bare.step () token := by
  cases token with
  | startTag name attributes selfClosing =>
    rw [step, step]
    split
    · rfl
    · exact bare_edit_append _ g
  | endTag name =>
    have hany : g.bare.openBranches.any (Branch.hasTag name.toLower) =
        g.openBranches.any (Branch.hasTag name.toLower) := by
      rw [bare, List.any_map]
      rfl
    rw [step, step, hany]
    split
    · exact bare_closeThrough name.toLower g.roots [] g.openBranches
    · rfl
  | text s =>
    have hopen : g.bare.openBranches.isEmpty = g.openBranches.isEmpty := by
      rw [bare, List.isEmpty_map]
    rw [step, step, hopen]
    split
    · rfl
    · exact bare_edit (bareAll_joinText a s) g

/-! ## Wellformed trees -/

/-- Open branches are elements, and all that grew is wellformed. -/
structure WellFormed (g : Growth α) : Prop where
  branch : ∀ b ∈ g.openBranches, b.content.WellFormed ∧ (∀ s, b.content ≠ .text s) ∧
    Tree.WellFormedAll b.children
  roots : Tree.WellFormedAll g.roots

theorem WellFormed.edit {g : Growth α} (h : g.WellFormed) {f : List (Tree α) → List (Tree α)}
    (hf : ∀ ts, Tree.WellFormedAll ts → Tree.WellFormedAll (f ts)) : (g.edit f).WellFormed := by
  obtain ⟨bs, roots⟩ := g
  obtain ⟨hbs, hroots⟩ := h
  cases bs with
  | nil => exact ⟨hbs, hf _ hroots⟩
  | cons b rest =>
    rw [List.forall_mem_cons] at hbs
    exact ⟨List.forall_mem_cons.2 ⟨⟨hbs.1.1, hbs.1.2.1, hf _ hbs.1.2.2⟩, hbs.2⟩, hroots⟩

theorem wellFormed_tree {b : Branch α} {last : List (Tree α)}
    (hb : b.content.WellFormed ∧ (∀ s, b.content ≠ .text s) ∧ Tree.WellFormedAll b.children)
    (hl : Tree.WellFormedAll last) : (b.tree last).WellFormed :=
  ⟨hb.1, fun s hs => absurd hs (hb.2.1 s), Tree.wellFormedAll_append_iff.2 ⟨hb.2.2, hl⟩⟩

theorem wellFormedAll_append_singleton {t : Tree α} (ht : t.WellFormed) (ts : List (Tree α))
    (h : Tree.WellFormedAll ts) : Tree.WellFormedAll (ts ++ [t]) :=
  Tree.wellFormedAll_append_iff.2 ⟨h, ht, trivial⟩

theorem wellFormedAll_joinText (a : α) (s : String) (ts : List (Tree α))
    (h : Tree.WellFormedAll ts) : Tree.WellFormedAll (joinText a s ts) := by
  have hleaf (b : α) (s : String) : (Tree.node b (.text s) []).WellFormed :=
    ⟨trivial, fun _ _ => rfl, trivial⟩
  rcases joinText_cases a s ts with ⟨init, b, s', us, rfl, hjoin⟩ | ⟨-, hjoin⟩
  · obtain ⟨hinit, ht, -⟩ := Tree.wellFormedAll_append_iff.1 h
    obtain rfl := ht.2.1 s' rfl
    rw [hjoin]
    exact wellFormedAll_append_singleton (hleaf b (s' ++ s)) init hinit
  · rw [hjoin]
    exact wellFormedAll_append_singleton (hleaf a s) ts h

theorem WellFormed.closeThrough (tag : String) {roots last : List (Tree α)} {bs : List (Branch α)}
    (h : (Growth.mk bs roots).WellFormed) (hl : Tree.WellFormedAll last) :
    (closeThrough tag roots last bs).WellFormed := by
  obtain ⟨hbs, hroots⟩ := h
  induction bs generalizing last with
  | nil => exact ⟨hbs, Tree.wellFormedAll_append_iff.2 ⟨hroots, hl⟩⟩
  | cons b rest ih =>
    rw [List.forall_mem_cons] at hbs
    have ht := wellFormed_tree hbs.1 hl
    rw [Growth.closeThrough]
    split
    · have hrest : (Growth.mk rest roots).WellFormed := ⟨hbs.2, hroots⟩
      exact hrest.edit (wellFormedAll_append_singleton ht)
    · have hone : Tree.WellFormedAll [b.tree last] := ⟨ht, trivial⟩
      exact ih hone hbs.2 hroots

theorem wellFormed_ofTag (name : String) (attributes : List (String × String)) :
    (Content.ofTag name attributes).WellFormed := by
  have hput (m : OrderedMap String String) (hm : m.Distinct) :
      OrderedMap.Distinct (attributes.foldl (fun m e => OrderedMap.put m e.1 e.2) m) := by
    induction attributes generalizing m with
    | nil => exact hm
    | cons e rest ih => exact ih _ (hm.put e.1 e.2)
  exact hput [] List.nodup_nil

/-- Each token leaves everything wellformed, as tags come with each attribute once. -/
theorem WellFormed.step (a : α) {g : Growth α} (h : g.WellFormed) (token : Html.Token) :
    (g.step a token).WellFormed := by
  cases token with
  | startTag name attributes selfClosing =>
    have hc := wellFormed_ofTag name attributes
    rw [Growth.step]
    split
    · exact ⟨List.forall_mem_cons.2 ⟨⟨hc, fun s => nofun, trivial⟩, h.branch⟩, h.roots⟩
    · exact h.edit (wellFormedAll_append_singleton ⟨hc, fun s => nofun, trivial⟩)
  | endTag name =>
    rw [Growth.step]
    split
    · exact WellFormed.closeThrough name.toLower h trivial
    · exact h
  | text s =>
    rw [Growth.step]
    split
    · exact h
    · exact h.edit (wellFormedAll_joinText a s)

theorem WellFormed.enclose {last : List (Tree α)} {bs : List (Branch α)}
    (h : (Growth.mk bs []).WellFormed) (hl : Tree.WellFormedAll last) :
    Tree.WellFormedAll (enclose last bs) := by
  obtain ⟨hbs, -⟩ := h
  induction bs generalizing last with
  | nil => exact hl
  | cons b rest ih =>
    rw [List.forall_mem_cons] at hbs
    exact ih ⟨wellFormed_tree hbs.1 hl, trivial⟩ hbs.2

theorem WellFormed.trees {g : Growth α} (h : g.WellFormed) : Tree.WellFormedAll g.trees :=
  Tree.wellFormedAll_append_iff.2 ⟨h.roots, WellFormed.enclose ⟨h.branch, trivial⟩ trivial⟩

/-- Whatever the tokens are, wellformed trees grow from them. -/
theorem wellFormed_foldl_step {g : Growth Unit} (h : g.WellFormed) (tokens : List Html.Token) :
    (tokens.foldl (step ()) g).WellFormed := by
  induction tokens generalizing g with
  | nil => exact h
  | cons token rest ih => exact ih (h.step () token)

end Growth

/-- Markup of any kind is read as wellformed trees, whatever the tokenizer makes of it. -/
theorem Html.wellFormedAll_treesOf [Html.Tokenizer] (markup : List Char) :
    Tree.WellFormedAll (Html.treesOf markup) := by
  have hstart : (⟨[], []⟩ : Growth Unit).WellFormed := ⟨List.forall_mem_nil _, trivial⟩
  exact (Growth.wellFormed_foldl_step hstart _).trees

end LiveMarkup
