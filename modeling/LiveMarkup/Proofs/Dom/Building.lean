import LiveMarkup.Proofs.Dom.Cycles
import LiveMarkup.Proofs.Dom.Forest
import LiveMarkup.Proofs.Dom.Origins

/-!
# Forests from tokens

Building trees from tokens makes a forest of a forest, whatever the tokens are: end tags may be
stray, or close elements in any order (`IsForest.builds`). What is built is compared with what grows
from the tokens (`Growth.traced`): the trees in the arena and those labelled with tokens are the
same but for their labels, so that the nodes in document order are paired with tokens
(`Hosts.forall₂_stemsFrom`).
-/

namespace LiveMarkup

open Html (Token)

namespace Tree

variable {α β : Type}

theorem bareAll_eq_map (ts : List (Tree α)) : bareAll ts = ts.map bare := by
  induction ts with
  | nil => rfl
  | cons t ts ih => rw [bareAll, ih, List.map_cons]

theorem isText_bare : ∀ t : Tree α, t.bare.IsText ↔ t.IsText
  | node _ (.text _) _ => Iff.rfl
  | node _ (.element _ _) _ => Iff.rfl

theorem isChain_apart_bareAll (ts : List (Tree α)) :
    (bareAll ts).IsChain Apart ↔ ts.IsChain Apart := by
  rw [bareAll_eq_map, List.isChain_map]
  simp only [Apart, isText_bare]
  rfl

theorem isChain_apart_of_bareAll_eq {ts : List (Tree α)} {us : List (Tree β)}
    (h : bareAll ts = bareAll us) (hus : us.IsChain Apart) : ts.IsChain Apart := by
  rwa [← isChain_apart_bareAll, h, isChain_apart_bareAll]

theorem eq_nil_of_bareAll_eq {ts : List (Tree α)} {us : List (Tree β)}
    (h : bareAll ts = bareAll us) (hus : us = []) : ts = [] := by
  rw [bareAll_eq_map, hus] at h
  exact List.map_eq_nil_iff.1 h

mutual

theorem text_bare : ∀ t : Tree α, t.bare.text = t.text
  | node _ (.text _) _ => by rw [bare, text, text]
  | node _ (.element _ _) ts => by rw [bare, text, text, textOfAll_bareAll ts]

theorem textOfAll_bareAll : ∀ ts : List (Tree α), textOfAll (bareAll ts) = textOfAll ts
  | [] => by rw [bareAll, textOfAll, textOfAll]
  | t :: ts => by rw [bareAll, textOfAll, textOfAll, text_bare t, textOfAll_bareAll ts]

end

theorem join_map_text (ts : List (Tree α)) : String.join (ts.map text) = textOfAll ts := by
  induction ts with
  | nil => rfl
  | cons t ts ih => rw [List.map_cons, String.join_cons, ih, textOfAll]

end Tree

namespace Dom

/-! ## What stems from tokens -/

/-- One of two nodes is no text, so that they can be next to each other. -/
def NotBothTexts (dom : Dom) (a b : NodeId) : Prop := ¬((dom.text? a).isSome ∧ (dom.text? b).isSome)

/-- Whether a node is an element. -/
def isTagged (dom : Dom) (id : NodeId) : Bool :=
  match dom.content? id with
  | some (.element _ _) => true
  | _ => false

/-- The node is what the token makes, and no two texts below it are next to each other. -/
def StemsFrom (dom : Dom) (id : NodeId) (token : Token) : Prop :=
  ∃ node, dom.get? id = some node ∧ token.Makes node.content node.children ∧
    node.children.IsChain dom.NotBothTexts

/-- The nodes at and below the given ones, in document order. -/
def preorder (dom : Dom) (roots : List NodeId) : List NodeId :=
  roots.flatMap fun root => (dom.tree? root).elim [] Tree.labels

variable {dom dom' : Dom} {parent? : Option NodeId} {id : NodeId}

theorem Hosts.isSome_text?_iff : ∀ {t : Tree NodeId}, Hosts dom parent? t →
    ((dom.text? t.label).isSome ↔ t.IsText)
  | .node a (.text s) ts, h => by
    rw [Tree.label, text?, content?, h.1]
    exact iff_of_true rfl trivial
  | .node a (.element tag attributes) ts, h => by
    rw [Tree.label, text?, content?, h.1]
    exact iff_of_false Bool.false_ne_true not_false

theorem content_eq_text {node : Node} {s : String} (hn : dom.get? id = some node)
    (h : dom.text? id = some s) : node.content = .text s := by
  rw [text?, content?, hn, Option.map_some] at h
  split at h
  · next s' hc => exact (Option.some.inj hc).trans (congrArg Content.text (Option.some.inj h))
  · cases h

theorem HostsAll.isChain_apart {ts : List (Tree NodeId)} (h : HostsAll dom parent? ts)
    (hts : ts.IsChain Tree.Apart) : (ts.map Tree.label).IsChain dom.NotBothTexts := by
  rw [List.isChain_map]
  refine hts.imp_of_mem_imp fun t u ht hu hapart hb => hapart ?_
  rw [hostsAll_iff] at h
  exact ⟨(h t ht).isSome_text?_iff.1 hb.1, (h u hu).isSome_text?_iff.1 hb.2⟩

mutual

/-- The nodes of a tree are paired with the labels of the same tree that stems from tokens. -/
theorem Hosts.forall₂_stemsFrom : ∀ {parent? : Option NodeId} {t : Tree NodeId} {u : Tree Token},
    Hosts dom parent? t → u.Stems → t.bare = u.bare →
    List.Forall₂ dom.StemsFrom t.labels u.labels
  | _, .node a c ts, .node token _ us, h, .node hmade hapart hbelow, hbare => by
    obtain ⟨-, rfl, hall⟩ := Tree.node.inj hbare
    have hchildren : (ts.map Tree.label).IsChain dom.NotBothTexts :=
      h.2.isChain_apart (Tree.isChain_apart_of_bareAll_eq hall hapart)
    have hnode : token.Makes c (ts.map Tree.label) :=
      hmade.congr fun hus => List.map_eq_nil_iff.2 (Tree.eq_nil_of_bareAll_eq hall hus)
    exact .cons ⟨_, h.1, hnode, hchildren⟩ (HostsAll.forall₂_stemsFrom h.2 hbelow hall)

theorem HostsAll.forall₂_stemsFrom : ∀ {parent? : Option NodeId} {ts : List (Tree NodeId)}
    {us : List (Tree Token)}, HostsAll dom parent? ts → (∀ u ∈ us, u.Stems) →
    Tree.bareAll ts = Tree.bareAll us →
    List.Forall₂ dom.StemsFrom (Tree.labelsOfAll ts) (Tree.labelsOfAll us)
  | _, [], [], _, _, _ => .nil
  | _, t :: ts, u :: us, h, hus, hbare => by
    obtain ⟨hfirst, hrest⟩ := List.cons.inj hbare
    obtain ⟨hu, hus⟩ := List.forall_mem_cons.1 hus
    exact List.rel_append (Hosts.forall₂_stemsFrom h.1 hu hfirst)
      (HostsAll.forall₂_stemsFrom h.2 hus hrest)

end

/-- The elements are the nodes of start tags. -/
theorem StemsFrom.isTagged_iff {token : Token} (h : dom.StemsFrom id token) :
    dom.isTagged id = true ↔ token.isStartTag = true := by
  obtain ⟨node, hn, hmade, -⟩ := h
  rw [isTagged, content?, hn, Option.map_some]
  cases token with
  | startTag name attributes selfClosing =>
    rw [hmade.1]
    exact iff_of_true rfl rfl
  | endTag name => exact hmade.elim
  | text s =>
    obtain ⟨⟨more, hmore⟩, -⟩ := hmade
    rw [hmore]
    exact iff_of_false Bool.false_ne_true Bool.false_ne_true

theorem Hosts.textContent_eq {t : Tree NodeId} (h : Hosts dom parent? t) (hn : t.labels.Nodup) :
    dom.textContent t.label = t.text := by
  rw [textContent]
  exact collectText_eq (h.collectWithin_eq (Nat.le_succ_of_le (h.length_le hn)))

theorem HostsAll.preorder_eq {ts : List (Tree NodeId)} (h : HostsAll dom parent? ts)
    (hn : (Tree.labelsOfAll ts).Nodup) :
    dom.preorder (ts.map Tree.label) = Tree.labelsOfAll ts := by
  rw [preorder, List.flatMap_map, Tree.labelsOfAll_eq_flatMap]
  refine List.flatMap_congr fun t ht => ?_
  rw [(hostsAll_iff.1 h t ht).tree?_eq (hn.sublist (Tree.labels_sublist_of_mem ht)),
    Option.elim_some]

theorem HostsAll.map_textContent {ts : List (Tree NodeId)} (h : HostsAll dom parent? ts)
    (hn : (Tree.labelsOfAll ts).Nodup) :
    (ts.map Tree.label).map dom.textContent = ts.map Tree.text := by
  rw [List.map_map]
  refine List.map_congr_left fun t ht => ?_
  exact (hostsAll_iff.1 h t ht).textContent_eq (hn.sublist (Tree.labels_sublist_of_mem ht))

/-! ## What is planted -/

namespace Plants

variable {new : List (Tree NodeId)}

theorem preorder_eq (h : Plants dom dom' new) :
    dom'.preorder (new.map Tree.label) = Tree.labelsOfAll new := h.hosts.preorder_eq h.nodup

theorem contains_iff (h : Plants dom dom' new) (id : NodeId) :
    dom'.contains id = true ∧ dom.contains id = false ↔ id ∈ Tree.labelsOfAll new := by
  constructor
  · rintro ⟨hnow, hbefore⟩
    by_contra hm
    rw [contains, h.get? id hm] at hnow
    exact absurd (hnow.symm.trans hbefore) (by decide)
  · intro hm
    refine ⟨h.hosts.isSome_of_mem hm, ?_⟩
    rw [contains, h.made id hm]
    rfl

theorem get?_of_contains (h : Plants dom dom' new) (hid : dom.contains id = true) :
    dom'.get? id = dom.get? id := by
  refine h.get? id fun hm => ?_
  rw [contains, h.made id hm] at hid
  cases hid

theorem parentless (h : Plants dom dom' new) {root : NodeId} (hroot : root ∈ new.map Tree.label) :
    dom'.contains root = true ∧ dom'.parent? root = none := by
  obtain ⟨t, ht, rfl⟩ := List.mem_map.1 hroot
  have hlabel := (hostsAll_iff.1 h.hosts t ht).get?_label
  exact ⟨contains_eq hlabel, parent?_eq hlabel⟩

theorem map_textContent (h : Plants dom dom' new) :
    (new.map Tree.label).map dom'.textContent = new.map Tree.text :=
  h.hosts.map_textContent h.nodup

/-- A node that is planted is in one tree only. -/
theorem existsUnique_root (h : Plants dom dom' new) (hid : id ∈ Tree.labelsOfAll new) :
    ∃! root, root ∈ new.map Tree.label ∧ dom'.Below id root := by
  obtain ⟨t, ht, hb⟩ := h.hosts.exists_below_label hid
  refine ⟨t.label, ⟨List.mem_map_of_mem ht, hb⟩, ?_⟩
  rintro root ⟨hm, hb'⟩
  by_contra hne
  rcases below_total hb hb' with habove | habove
  · exact not_below_of_root (h.parentless (List.mem_map_of_mem ht)).2 (Ne.symm hne) habove
  · exact not_below_of_root (h.parentless hm).2 hne habove

/-- A forest stays one where wellformed trees are planted. -/
theorem isForest (h : Plants dom dom' new) (hforest : dom.IsForest) (hlinked : dom'.Linked)
    (hw : Tree.WellFormedAll new) : dom'.IsForest := by
  have hcases {id : NodeId} {node : Node} (hn : dom'.get? id = some node) :
      dom.get? id = some node ∨ ∃ t, HostedWithin dom' none new id t := by
    by_cases hm : id ∈ Tree.labelsOfAll new
    · exact .inr (h.hosts.exists_hostedWithin hw hm)
    · exact .inl ((h.get? id hm).symm.trans hn)
  refine hlinked.isForest (h.acyclic hforest.linked hforest.acyclic) (fun {id node s} hn hc => ?_)
    fun {id node} hn => ?_
  · rcases hcases hn with hn | ⟨⟨a, c, us⟩, ht⟩
    · exact hforest.leaf hn hc
    · have hleaf := ht.wellFormed.2.1 s ((ht.get?_eq hn).1.symm.trans hc)
      rw [(ht.get?_eq hn).2]
      exact List.map_eq_nil_iff.2 hleaf
  · rcases hcases hn with hn | ⟨⟨a, c, us⟩, ht⟩
    · exact hforest.wellFormed hn
    · rw [(ht.get?_eq hn).1]
      exact ht.wellFormed.1

end Plants

/-! ## Building -/

/-- From tokens new trees were built in an arena, whose roots are given. -/
structure Builds (dom : Dom) (tokens : List Token) (dom' : Dom) (roots : List NodeId) : Prop where
  forest : dom'.IsForest
  kept : ∀ id, dom.contains id = true → dom'.get? id = dom.get? id
  distinct : roots.Nodup
  parentless : ∀ root ∈ roots, dom'.contains root = true ∧ dom'.parent? root = none
  /-- The nodes that were made are those in the trees. -/
  made : ∀ id, dom'.contains id = true ∧ dom.contains id = false ↔ id ∈ dom'.preorder roots
  size : dom'.size = dom.size + (dom'.preorder roots).length
  oneTree : ∀ id ∈ dom'.preorder roots, ∃! root, root ∈ roots ∧ dom'.Below id root
  /-- In document order the elements are those of the start tags. A void or self-closed one has no
  children. -/
  elements : List.Forall₂ dom'.StemsFrom ((dom'.preorder roots).filter dom'.isTagged)
    (tokens.filter Token.isStartTag)
  leaves : ∀ id ∈ dom'.preorder roots, (dom'.text? id).isSome → dom'.children id = []
  apart : roots.IsChain dom'.NotBothTexts ∧
    ∀ id ∈ dom'.preorder roots, (dom'.children id).IsChain dom'.NotBothTexts
  texts : String.join (roots.map dom'.textContent) = String.join (tokens.filterMap Token.text?)

/-- Whatever the tokens are, building makes a forest of a forest. -/
theorem IsForest.builds (h : dom.IsForest) (tokens : List Token) :
    Builds dom tokens (dom.build tokens).1 (dom.build tokens).2 := by
  obtain ⟨new, hroots, hbare, hplants⟩ := plants_build h.sound tokens
  obtain ⟨hsiblings, htags, htexts⟩ := Growth.stems_traced tokens
  have hlinked := h.linked.makes (makes_build dom tokens)
  revert hroots hplants hlinked
  obtain ⟨dom', roots⟩ := dom.build tokens
  rintro rfl hplants hlinked
  have hsame : Tree.bareAll new = Tree.bareAll (Growth.traced tokens).trees := by
    rw [hbare, ← Growth.bare_traced, Growth.trees_bare]
  have hstart : (⟨[], []⟩ : Growth Unit).WellFormed := ⟨List.forall_mem_nil _, trivial⟩
  have hw : Tree.WellFormedAll new := (Tree.copiesAll_bareAll new).wellFormedAll
    (hbare ▸ (Growth.wellFormed_foldl_step hstart tokens).trees)
  have hforest := hplants.isForest h hlinked hw
  have hpairs := hplants.hosts.forall₂_stemsFrom hsiblings.stems hsame
  have horder := hplants.preorder_eq
  have hstems (id : NodeId) (hid : id ∈ dom'.preorder (new.map Tree.label)) :
      ∃ token, dom'.StemsFrom id token := by
    rw [horder] at hid
    have hboth : List.Forall₂ (fun id token => (∃ token, dom'.StemsFrom id token) ∧
        dom'.StemsFrom id token) _ _ := hpairs.imp fun _ token hs => ⟨⟨token, hs⟩, hs⟩
    exact ((List.forall₂_and_left _ _).1 hboth).1 id hid
  refine ⟨hforest, fun id => hplants.get?_of_contains, ?_, fun root => hplants.parentless,
    fun id => ?_, ?_, ?_, ?_, fun id hid ht => ?_, ⟨hplants.hosts.isChain_apart
      (Tree.isChain_apart_of_bareAll_eq hsame hsiblings.apart), fun id hid => ?_⟩, ?_⟩
  · exact hplants.nodup.sublist (Tree.map_label_sublist new)
  · rw [horder]
    exact hplants.contains_iff id
  · rw [horder]
    exact hplants.size
  · exact fun id hid => hplants.existsUnique_root (horder ▸ hid)
  · rw [horder, ← htags]
    exact List.rel_filter (fun _ _ hid => hid.isTagged_iff) hpairs
  · obtain ⟨token, node, hn, -, -⟩ := hstems id hid
    obtain ⟨s, hs⟩ := Option.isSome_iff_exists.1 ht
    rw [children_eq hn]
    exact hforest.leaf hn (content_eq_text hn hs)
  · obtain ⟨token, node, hn, -, hchain⟩ := hstems id hid
    rw [children_eq hn]
    exact hchain
  · rw [← htexts, ← Tree.textOfAll_bareAll, ← hsame, Tree.textOfAll_bareAll, ← Tree.join_map_text,
      hplants.map_textContent]

/-- Stray and crossing end tags: text is joined around the stray one, and the other one closes the
paragraph with what is open in it. -/
theorem IsForest.builds_crossing :
    let dom := (Dom.empty.graft (Tree.node () (.element "div" []) [])).1
    let tokens : List Token := [.text "a", .endTag "p", .text "b", .startTag "p" [] false,
      .startTag "BR" [] false, .startTag "i" [] false, .text "c", .endTag "p", .endTag "i",
      .text "d"]
    dom.IsForest ∧ Builds dom tokens (dom.build tokens).1 (dom.build tokens).2 ∧
      (dom.build tokens).2.map (dom.build tokens).1.textContent = ["ab", "c", "d"] := by
  intro dom tokens
  have hw : (Tree.node () (.element "div" []) []).WellFormed := ⟨List.nodup_nil, nofun, trivial⟩
  obtain ⟨new, -, -, hconsists⟩ := consistsOf_empty.graft hw
  have hforest : dom.IsForest := hconsists.isForest
  exact ⟨hforest, hforest.builds tokens, by decide +kernel⟩

end Dom

end LiveMarkup
