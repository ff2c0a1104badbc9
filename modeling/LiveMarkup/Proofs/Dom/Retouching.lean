import LiveMarkup.Proofs.Dom.Alignment

/-!
# Changing what a node is

Setting a text or attributes changes what one node is, and nothing else (`Dom.Retouches`). Bringing
the attributes of a live element to those of a fresh one retouches the live one, by the changes that
`attributeEdits` lists (`retouches_alignAttributes`).
-/

namespace LiveMarkup

namespace Dom

/-- One node is given a content. -/
structure Retouches (dom dom' : Dom) (id : NodeId) (content : Content) : Prop where
  get? : ∀ other, dom'.get? other =
    if other = id then (dom.get? id).map fun node => { node with content := content }
    else dom.get? other
  size : dom'.size = dom.size
  sound : dom.Sound → dom'.Sound

variable {dom dom' : Dom} {id : NodeId} {node : Node} {content : Content} {tag : String}
  {attributes : OrderedMap String String}

namespace Retouches

/-- A node whose content stays is retouched with its own content. -/
theorem refl (h : dom.get? id = some node) : Retouches dom dom id node.content := by
  refine ⟨fun other => ?_, rfl, fun hs => hs⟩
  by_cases ho : other = id
  · rw [if_pos ho, ho, h, Option.map_some]
  · rw [if_neg ho]

theorem get?_self (h : Retouches dom dom' id content) (hn : dom.get? id = some node) :
    dom'.get? id = some { node with content := content } := by
  rw [h.get?, if_pos rfl, hn, Option.map_some]

/-- To change the content of a node once more is to have changed it to the last content. -/
theorem modify (h : Retouches dom dom' id content) {content' : Content} {f : Node → Node}
    (hf : ∀ node : Node, node.content = content → f node = { node with content := content' }) :
    Retouches dom (dom'.modify id f) id content' := by
  refine ⟨fun other => ?_, (size_modify _ _ _).trans h.size, fun hs => (h.sound hs).modify _ _⟩
  rw [get?_modify]
  by_cases ho : other = id
  · rw [if_pos ho, if_pos ho, h.get?, if_pos rfl, Option.map_map]
    congr 1
    funext node
    exact hf _ rfl
  · rw [if_neg ho, if_neg ho, h.get?, if_neg ho]

theorem setText {s : String} (h : Retouches dom dom' id (.text s)) (s' : String) :
    Retouches dom (dom'.setText id s') id (.text s') :=
  h.modify fun node hn => by simp [hn]

theorem setAttribute (h : Retouches dom dom' id (.element tag attributes)) (name value : String) :
    Retouches dom (dom'.setAttribute id name value) id (.element tag (attributes.put name value)) :=
  h.modify fun node hn => by simp [hn]

theorem removeAttribute (h : Retouches dom dom' id (.element tag attributes)) (name : String) :
    Retouches dom (dom'.removeAttribute id name) id (.element tag (attributes.erase name)) :=
  h.modify fun node hn => by simp [hn]

/-- The tree of a node that was retouched. -/
theorem hosts {parent? : Option NodeId} {c : Content} {ts : List (Tree NodeId)}
    (h : Retouches dom dom' id content) (ht : Hosts dom parent? (.node id c ts))
    (hn : (Tree.node id c ts).labels.Nodup) : Hosts dom' parent? (.node id content ts) := by
  rw [Tree.labels, List.nodup_cons] at hn
  refine ⟨h.get?_self ht.1, ht.2.congr fun x hx => ?_⟩
  rw [h.get?, if_neg (fun e : x = id => hn.1 (e ▸ hx))]

end Retouches

theorem attributes_eq (h : dom.get? id = some node) (hc : node.content = .element tag attributes) :
    dom.attributes id = attributes := by
  rw [Dom.attributes, content?, h, Option.map_some, hc]

/-! ## Attributes -/

namespace Patch

variable {p : Patch} {wanted : OrderedMap String String}

/-- The step of `alignAttributes` that takes an attribute away unless it is wanted. -/
def dropUnwanted (id : NodeId) (wanted : OrderedMap String String) (p : Patch)
    (entry : String × String) : Patch :=
  if wanted.contains entry.1 then p else p.removeAttribute id entry.1

/-- The step of `alignAttributes` that sets an attribute unless it is there. -/
def setMissing (id : NodeId) (p : Patch) (entry : String × String) : Patch :=
  if p.dom.attribute? id entry.1 = some entry.2 then p else p.setAttribute id entry.1 entry.2

theorem alignAttributes_eq (p : Patch) (live fresh : NodeId) :
    p.alignAttributes live fresh = (p.dom.attributes fresh).foldl (setMissing live)
      ((p.dom.attributes live).foldl (dropUnwanted live (p.dom.attributes fresh)) p) := rfl

/-- All attributes that are not wanted are removed, and for each there is one edit. -/
theorem retouches_foldl_dropUnwanted (h : Retouches dom p.dom id (.element tag attributes))
    (wanted entries : OrderedMap String String) :
    Retouches dom (entries.foldl (dropUnwanted id wanted) p).dom id
        (.element tag (entries.foldl (OrderedMap.eraseUnwanted wanted) attributes)) ∧
      (entries.foldl (dropUnwanted id wanted) p).edits = p.edits ++
        (entries.filter fun e => !wanted.contains e.1).map fun e => .removeAttribute id e.1 := by
  induction entries generalizing p attributes with
  | nil => exact ⟨h, (List.append_nil _).symm⟩
  | cons entry rest ih =>
    rw [List.foldl_cons, List.foldl_cons, dropUnwanted, OrderedMap.eraseUnwanted]
    cases hw : wanted.contains entry.1 with
    | true =>
      simpa [hw] using ih h
    | false =>
      have hedits := ih (p := p.removeAttribute id entry.1) (h.removeAttribute entry.1)
      simpa [hw, removeAttribute, note] using hedits

/-- All attributes that are missing or have other values are set, and for each there is one edit. It
is against the attributes before that they are compared, as no name comes twice. -/
theorem retouches_foldl_setMissing (hn : dom.get? id = some node)
    (h : Retouches dom p.dom id (.element tag attributes)) {entries : OrderedMap String String}
    (he : entries.Distinct) :
    Retouches dom (entries.foldl (setMissing id) p).dom id
        (.element tag (entries.foldl OrderedMap.putMissing attributes)) ∧
      (entries.foldl (setMissing id) p).edits = p.edits ++
        (entries.filter fun e => attributes.find? e.1 ≠ some e.2).map
          fun e => .setAttribute id e.1 e.2 := by
  induction entries generalizing p attributes with
  | nil => exact ⟨h, (List.append_nil _).symm⟩
  | cons entry rest ih =>
    obtain ⟨hk, hrest⟩ := List.nodup_cons.1 he
    have hattribute : p.dom.attribute? id entry.1 = attributes.find? entry.1 := by
      rw [attribute?, attributes_eq (h.get?_self hn) rfl]
    have hlater : ∀ e ∈ rest, (attributes.putMissing entry).find? e.1 = attributes.find? e.1 := by
      intro e he
      rw [OrderedMap.find?_putMissing, if_neg]
      exact fun heq => hk (heq ▸ List.mem_map_of_mem he)
    rw [List.foldl_cons, List.foldl_cons, setMissing, hattribute, List.filter_cons]
    by_cases hsame : attributes.find? entry.1 = some entry.2
    · rw [if_pos hsame, OrderedMap.putMissing, if_pos hsame]
      simpa [hsame] using ih h hrest
    · rw [OrderedMap.putMissing, if_neg hsame] at hlater
      rw [if_neg hsame, OrderedMap.putMissing, if_neg hsame]
      obtain ⟨hr, hedits⟩ := ih (p := p.setAttribute id entry.1 entry.2)
        (h.setAttribute entry.1 entry.2) hrest
      refine ⟨hr, hedits.trans ?_⟩
      rw [List.filter_congr fun e he => by rw [hlater e he]]
      simp [hsame, setAttribute, note]

/-- The live element gets the attributes of the fresh one. -/
theorem retouches_alignAttributes {live fresh : NodeId} {node node' : Node}
    (hl : p.dom.get? live = some node) (hf : p.dom.get? fresh = some node')
    (hlc : node.content = .element tag attributes) (hfc : node'.content = .element tag wanted)
    (ha : attributes.Distinct) (hw : wanted.Distinct) :
    Retouches p.dom (p.alignAttributes live fresh).dom live
        (.element tag (attributes.align wanted)) ∧
      (p.alignAttributes live fresh).edits = p.edits ++ attributeEdits live attributes wanted := by
  have hstart : Retouches p.dom p.dom live (.element tag attributes) := hlc ▸ .refl hl
  obtain ⟨hdrop, hdropped⟩ := retouches_foldl_dropUnwanted hstart wanted attributes
  obtain ⟨hset, hedits⟩ := retouches_foldl_setMissing hl hdrop hw
  rw [alignAttributes_eq, attributes_eq hl hlc, attributes_eq hf hfc]
  refine ⟨hset, hedits.trans ?_⟩
  have hkept : ∀ e ∈ wanted,
      (attributes.foldl (OrderedMap.eraseUnwanted wanted) attributes).find? e.1 =
      attributes.find? e.1 := fun e he => by
    rw [OrderedMap.find?_foldl_eraseUnwanted_self ha, OrderedMap.contains_of_mem he, if_pos rfl]
  have hset := List.filter_congr (l := wanted)
    (fun e he => by rw [hkept e he] : ∀ e ∈ wanted,
      decide
        ((attributes.foldl (OrderedMap.eraseUnwanted wanted) attributes).find? e.1 ≠ some e.2) =
        decide (attributes.find? e.1 ≠ some e.2))
  rw [hdropped, attributeEdits, List.append_assoc, hset]

end Patch

end Dom

end LiveMarkup
