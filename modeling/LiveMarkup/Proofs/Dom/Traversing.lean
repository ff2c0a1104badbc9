import LiveMarkup.Proofs.Dom.Descent

/-!
# Traversals that end

Writing the markup of a node and copying it call themselves for each child, and collecting its text
goes through a list of nodes that grows by the children of those it meets. Here they are followed as
they go, without a tree to go by: `writeWithin` and `copyWithin` as deep as calls may nest,
`collectWithin` for so many turns, with no answer where that is too little. In an arena whose links
fit together and where no node is below itself, each of them has an answer for every handle, which
is the markup, the text and the copy of the tree (`Linked.traversalsEnd`).
-/

namespace LiveMarkup

namespace Dom

/-! ## Traversals as they go -/

/-- The markup of a node, written by calls that nest no deeper than a bound. -/
def writeWithin (dom : Dom) : Nat → Bool → NodeId → Option String
  | 0, _, _ => none
  | calls + 1, raw, id =>
    match dom.get? id with
    | none => some ""
    | some ⟨.text s, _, _⟩ => some (if raw then s else Tree.writeWith Tree.escapeText s)
    | some ⟨.element tag attributes, _, children⟩ =>
      if Html.isVoid tag then some (Tree.startTag tag attributes)
      else (children.mapM (dom.writeWithin calls (Html.isRawText tag))).map fun parts =>
        Tree.startTag tag attributes ++ parts.foldr (· ++ ·) "" ++ "</" ++ tag ++ ">"

/-- The text of the nodes of a list behind the text seen so far, collected in a number of turns. A
turn takes one node off the list. -/
def collectWithin (dom : Dom) : Nat → List NodeId → String → Option String
  | _, [], seen => some seen
  | 0, _ :: _, _ => none
  | turns + 1, id :: rest, seen =>
    match dom.get? id with
    | none => collectWithin dom turns rest seen
    | some ⟨.text s, _, _⟩ => collectWithin dom turns rest (seen ++ s)
    | some ⟨.element _ _, _, children⟩ => collectWithin dom turns (children ++ rest) seen

/-- A copy of a node, made by calls that nest no deeper than a bound. -/
def copyWithin : Nat → Dom → NodeId → Option (Dom × NodeId)
  | 0, _, _ => none
  | calls + 1, dom, id =>
    match dom.get? id with
    | none => some (dom, id)
    | some node =>
      let copy := (dom.allocate node.content).2
      (node.children.foldlM (fun dom child =>
        (copyWithin calls dom child).map fun made => made.1.append copy made.2)
        (dom.allocate node.content).1).map fun dom => (dom, copy)

/-- Every traversal from every handle ends, with the markup, the text or the copy as answer. -/
structure TraversalsEnd (dom : Dom) : Prop where
  write : ∀ id, ∃ calls, dom.writeWithin calls false id = some (dom.outerHtml id)
  collect : ∀ id, ∃ turns, dom.collectWithin turns [id] "" = some (dom.textContent id)
  copy : ∀ id, ∃ calls, copyWithin calls dom id = some (dom.copyTree id)

/-! ## Traversals of hosted trees -/

variable {dom : Dom} {id : NodeId}

mutual

theorem Hosts.writeWithin_eq : ∀ {parent? : Option NodeId} {t : Tree NodeId} {calls : Nat}
    (raw : Bool), Hosts dom parent? t → t.labels.length ≤ calls →
    dom.writeWithin calls raw t.label = some (t.markup raw)
  | _, .node _ _ _, 0, _, _, hl => by
    simp [Tree.labels] at hl
  | _, .node a (.text s) children, calls + 1, raw, h, _ => by
    rw [Tree.label, writeWithin, h.1, Tree.markup]
  | _, .node a (.element tag attributes) children, calls + 1, raw, h, hl => by
    rw [Tree.labels, List.length_cons, Nat.add_le_add_iff_right] at hl
    obtain ⟨parts, hparts, hjoin⟩ := h.2.mapM_writeWithin_eq (Html.isRawText tag) hl
    rw [Tree.label, writeWithin, h.1, Tree.markup]
    simp only
    rw [hparts, Option.map_some, hjoin]
    split <;> rfl

theorem HostsAll.mapM_writeWithin_eq : ∀ {parent? : Option NodeId} {ts : List (Tree NodeId)}
    {calls : Nat} (raw : Bool), HostsAll dom parent? ts → (Tree.labelsOfAll ts).length ≤ calls →
    ∃ parts, (ts.map Tree.label).mapM (dom.writeWithin calls raw) = some parts ∧
      parts.foldr (· ++ ·) "" = Tree.markupOfAll raw ts
  | _, [], _, _, _, _ => ⟨[], rfl, by rw [Tree.markupOfAll, List.foldr_nil]⟩
  | _, t :: rest, calls, raw, h, hl => by
    rw [Tree.labelsOfAll, List.length_append] at hl
    have hfirst := h.1.writeWithin_eq raw (Nat.le_of_add_right_le hl)
    obtain ⟨parts, hparts, hjoin⟩ := h.2.mapM_writeWithin_eq raw (Nat.le_of_add_left_le hl)
    refine ⟨t.markup raw :: parts, ?_, by rw [List.foldr_cons, hjoin, Tree.markupOfAll]⟩
    rw [List.map_cons, List.mapM_cons, hfirst, hparts]
    rfl

end

theorem textOfAll_append {α : Type} (ts us : List (Tree α)) :
    Tree.textOfAll (ts ++ us) = Tree.textOfAll ts ++ Tree.textOfAll us := by
  induction ts with
  | nil => rw [List.nil_append, Tree.textOfAll, String.empty_append]
  | cons t rest ih => rw [List.cons_append, Tree.textOfAll, Tree.textOfAll, ih, String.append_assoc]

/-- A turn takes one node off, and there are at most as many turns as nodes. -/
theorem collectWithin_eq {ts : List (Tree NodeId)} {turns : Nat} (seen : String)
    (h : ∀ t ∈ ts, ∃ parent?, Hosts dom parent? t) (hl : (Tree.labelsOfAll ts).length ≤ turns) :
    dom.collectWithin turns (ts.map Tree.label) seen = some (seen ++ Tree.textOfAll ts) := by
  induction turns generalizing ts seen with
  | zero =>
    cases ts with
    | nil => rw [List.map_nil, collectWithin, Tree.textOfAll, String.append_empty]
    | cons t rest => simp [Tree.labelsOfAll, t.labels_eq] at hl
  | succ turns ih =>
    match ts with
    | [] => rw [List.map_nil, collectWithin, Tree.textOfAll, String.append_empty]
    | .node a content us :: rest =>
      obtain ⟨⟨parent?, ht⟩, hrest⟩ := List.forall_mem_cons.1 h
      rw [Tree.labelsOfAll, Tree.labels, List.length_append, List.length_cons] at hl
      rw [List.map_cons, Tree.label, collectWithin, ht.1, Tree.textOfAll]
      cases content with
      | text s =>
        simp only
        rw [ih (seen ++ s) hrest (by omega), Tree.text, String.append_assoc]
      | element tag attributes =>
        simp only
        rw [← List.map_append, ih seen, textOfAll_append, Tree.text]
        · exact List.forall_mem_append.2 ⟨fun u hu => ⟨_, hostsAll_iff.1 ht.2 u hu⟩, hrest⟩
        · rw [Tree.labelsOfAll_append, List.length_append]
          omega

theorem Hosts.collectWithin_eq {parent? : Option NodeId} {t : Tree NodeId} {turns : Nat}
    (h : Hosts dom parent? t) (hl : t.labels.length ≤ turns) :
    dom.collectWithin turns [t.label] "" = some t.text := by
  have hall : ∀ u ∈ [t], ∃ parent?, Hosts dom parent? u := by simpa using ⟨_, h⟩
  rw [← Tree.labelsOfAll_singleton] at hl
  refine (Dom.collectWithin_eq "" hall hl).trans ?_
  rw [Tree.textOfAll, Tree.textOfAll, String.append_empty, String.empty_append]

theorem collectText_eq {turns : Nat} {pending : List NodeId} {seen s : String}
    (h : dom.collectWithin turns pending seen = some s) :
    dom.collectText turns pending seen = s := by
  induction turns generalizing pending seen with
  | zero =>
    cases pending with
    | nil => exact Option.some.inj h
    | cons id rest => cases h
  | succ turns ih =>
    cases pending with
    | nil => exact Option.some.inj h
    | cons id rest =>
      rw [collectWithin] at h
      rw [collectText]
      cases hn : dom.get? id with
      | none =>
        rw [hn] at h
        exact ih h
      | some node =>
        rw [hn] at h
        obtain ⟨content, parent, children⟩ := node
        cases content with
        | text s => exact ih h
        | element tag attributes => exact ih h

mutual

/-- What a copy is made of is not touched while the copy is made. -/
theorem Hosts.copyWithin_eq : ∀ {dom : Dom} {parent? : Option NodeId} {t : Tree NodeId}
    {calls : Nat}, Hosts dom parent? t → dom.Sound → t.labels.length ≤ calls →
    copyWithin calls dom t.label = some (dom.graft t)
  | _, _, .node _ _ _, 0, _, _, hl => by
    simp [Tree.labels] at hl
  | dom, _, .node a content children, calls + 1, h, hs, hl => by
    rw [Tree.labels, List.length_cons, Nat.add_le_add_iff_right] at hl
    have hkept : ∀ id, (dom.get? id).isSome → (dom.allocate content).1.get? id = dom.get? id :=
      fun id hid => by
        rw [hs.get?_allocate, if_neg]
        rintro rfl
        rw [hs.get?_new] at hid
        cases hid
    have hchildren : HostsAll (dom.allocate content).1 (some a) children :=
      h.2.congr fun id hm => hkept id (h.2.isSome_of_mem hm)
    have hout : (dom.allocate content).2 ∉ Tree.labelsOfAll children := fun hm => by
      have := h.2.isSome_of_mem hm
      rw [hs.get?_new] at this
      cases this
    have hcopy : ((dom.allocate content).1.get? (dom.allocate content).2).isSome := by
      rw [hs.get?_allocate, if_pos rfl]
      rfl
    have hall := hchildren.foldlM_copyWithin_eq (hs.allocate content) hcopy hout hl
    rw [Tree.label, copyWithin, h.1]
    simp only
    rw [hall, graft]
    rfl

theorem HostsAll.foldlM_copyWithin_eq : ∀ {dom : Dom} {parent? : Option NodeId}
    {ts : List (Tree NodeId)} {calls : Nat} {copy : NodeId}, HostsAll dom parent? ts → dom.Sound →
    (dom.get? copy).isSome → copy ∉ Tree.labelsOfAll ts → (Tree.labelsOfAll ts).length ≤ calls →
    (ts.map Tree.label).foldlM (fun dom child =>
      (copyWithin calls dom child).map fun made => made.1.append copy made.2) dom =
      some (dom.graftAll copy ts)
  | _, _, [], _, _, _, _, _, _, _ => by
    rw [graftAll]
    rfl
  | dom, _, t :: rest, calls, copy, h, hs, hc, hout, hl => by
    rw [Tree.labelsOfAll, List.length_append] at hl
    rw [Tree.labelsOfAll, List.mem_append, not_or] at hout
    obtain ⟨new, hlabel, -, hgraft⟩ := grafts_graft t hs
    have hfirst := hgraft.append hc
    have hkept : ∀ id, (dom.get? id).isSome → id ≠ copy →
        ((dom.graft t).1.append copy new.label).get? id = dom.get? id := fun id hid hne => by
      rw [hfirst.get? id, map_editChildren_of_ne (by simpa using Ne.symm hne)]
      intro hm
      rw [hfirst.made id hm] at hid
      cases hid
    have hlive : (((dom.graft t).1.append copy new.label).get? copy).isSome := by
      rw [hfirst.get? copy, Option.isSome_map, hc]
      intro hm
      rw [hfirst.made copy hm] at hc
      cases hc
    have hrest : HostsAll ((dom.graft t).1.append copy new.label) _ rest :=
      h.2.congr fun id hm => hkept id (h.2.isSome_of_mem hm) fun e => hout.2 (e ▸ hm)
    have hlater := hrest.foldlM_copyWithin_eq hfirst.sound hlive hout.2 (Nat.le_of_add_left_le hl)
    rw [List.map_cons, List.foldlM_cons, h.1.copyWithin_eq hs (Nat.le_of_add_right_le hl),
      Option.map_some, hlabel, graftAll_cons, hlabel]
    exact hlater

end

/-! ## Traversals end -/

/-- Where no node is below itself, no traversal goes on for ever. -/
theorem Linked.traversalsEnd (h : dom.Linked) (ha : dom.Acyclic) : dom.TraversalsEnd := by
  refine ⟨fun id => ?_, fun id => ?_, fun id => ?_⟩
  · refine ⟨dom.slots.size + 1, ?_⟩
    cases hid : dom.contains id with
    | false =>
      rw [writeWithin, get?_eq_none hid, outerHtml, tree?_of_stale hid]
      rfl
    | true =>
      obtain ⟨t, ht⟩ := h.exists_spans ha hid
      have hl := ht.hosts.length_le ht.nodup
      have := ht.hosts.writeWithin_eq false (Nat.le_succ_of_le hl)
      rw [ht.label] at this
      rw [this, outerHtml, ht.tree?_eq]
      rfl
  · refine ⟨dom.slots.size + 1, ?_⟩
    suffices key : ∃ s, dom.collectWithin (dom.slots.size + 1) [id] "" = some s by
      obtain ⟨s, hs⟩ := key
      rw [hs, textContent, collectText_eq hs]
    cases hid : dom.contains id with
    | false =>
      rw [collectWithin, get?_eq_none hid]
      exact ⟨"", by rw [collectWithin]⟩
    | true =>
      obtain ⟨t, ht⟩ := h.exists_spans ha hid
      have hl := ht.hosts.length_le ht.nodup
      have := ht.hosts.collectWithin_eq (Nat.le_succ_of_le hl)
      rw [ht.label] at this
      exact ⟨_, this⟩
  · refine ⟨dom.slots.size + 1, ?_⟩
    cases hid : dom.contains id with
    | false => rw [copyWithin, get?_eq_none hid, Dom.copyTree, tree?_of_stale hid]
    | true =>
      obtain ⟨t, ht⟩ := h.exists_spans ha hid
      have hl := ht.hosts.length_le ht.nodup
      have := ht.hosts.copyWithin_eq h.sound (Nat.le_succ_of_le hl)
      rw [ht.label] at this
      rw [this, Dom.copyTree, ht.tree?_eq]

end Dom

end LiveMarkup
