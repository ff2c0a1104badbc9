import LiveMarkup.Dom.Tree

/-!
# Reconciling a tree with another one

`Dom.reconcile` turns a live tree into an equal of a fresh one with few changes, and keeps the live
nodes that match. Two nodes match if both are text, or both are elements with one tag. Matching
elements get the attributes of the fresh one and their children are matched in order; what is left
over of the live children is removed, what is left over of the fresh ones is copied. Nodes that do
not match are replaced by a copy. Every change is noted (`Edit`).

The recursion goes down both trees at once. It is followed as many levels as the arena has slots,
which is deeper than a tree can be.
-/

namespace LiveMarkup

namespace Dom

/-- A change that reconciling makes. -/
inductive Edit
  | setAttribute (node : NodeId) (name value : String)
  | removeAttribute (node : NodeId) (name : String)
  | setText (node : NodeId) (s : String)
  /-- A copy was made, whose nodes are `made` in preorder. -/
  | copyTree (node copy : NodeId) (made : List NodeId)
  | append (parent child : NodeId)
  | replace (old new : NodeId)
  | remove (node : NodeId)
  deriving DecidableEq, Repr

/-- The arena and the changes made to it so far. -/
structure Patch where
  dom : Dom
  edits : List Edit
  deriving Inhabited

namespace Patch

/-- The patch with a further change. -/
def note (p : Patch) (dom : Dom) (edit : Edit) : Patch := ⟨dom, p.edits ++ [edit]⟩

/-- Gives an attribute a value. -/
def setAttribute (p : Patch) (id : NodeId) (name value : String) : Patch :=
  p.note (p.dom.setAttribute id name value) (.setAttribute id name value)

/-- Takes an attribute away. -/
def removeAttribute (p : Patch) (id : NodeId) (name : String) : Patch :=
  p.note (p.dom.removeAttribute id name) (.removeAttribute id name)

/-- Gives a text node a content. -/
def setText (p : Patch) (id : NodeId) (s : String) : Patch :=
  p.note (p.dom.setText id s) (.setText id s)

/-- Makes a node the last child of another one. -/
def append (p : Patch) (parent child : NodeId) : Patch :=
  p.note (p.dom.append parent child) (.append parent child)

/-- Puts a node where another one is. -/
def replace (p : Patch) (old new : NodeId) : Patch :=
  p.note (p.dom.replace old new) (.replace old new)

/-- Frees a node with everything below it. -/
def remove (p : Patch) (id : NodeId) : Patch := p.note (p.dom.remove id) (.remove id)

/-- Copies a node with everything below it. -/
def copyTree (p : Patch) (id : NodeId) : Patch × NodeId :=
  let (dom, copy) := p.dom.copyTree id
  (p.note dom (.copyTree id copy (((dom.tree? copy).map Tree.labels).getD [])), copy)

/-- Gives an element the attributes of another one. -/
def alignAttributes (p : Patch) (live fresh : NodeId) : Patch :=
  let wanted := p.dom.attributes fresh
  let p := (p.dom.attributes live).foldl
    (fun p (name, _) => if wanted.contains name then p else p.removeAttribute live name) p
  wanted.foldl
    (fun p (name, value) =>
      if p.dom.attribute? live name = some value then p else p.setAttribute live name value) p

/-- Matches children in order. `each` reconciles two of them. -/
def alignChildren (each : Patch → NodeId → NodeId → Patch) (parent : NodeId)
    (p : Patch) (live fresh : List NodeId) : Patch :=
  match live, fresh with
  | [], [] => p
  | l :: live, f :: fresh => alignChildren each parent (each p l f) live fresh
  | l :: live, [] => alignChildren each parent (p.remove l) live []
  | [], f :: fresh =>
    let (p, copy) := p.copyTree f
    alignChildren each parent (p.append parent copy) [] fresh

/-- How two nodes are reconciled. -/
inductive Match
  /-- The live node is kept. -/
  | keepText (s : String)
  | keepElement
  /-- The live node is replaced by a copy. -/
  | replace
  /-- There is no live node, and a copy stands for it. -/
  | copy
  /-- There is no fresh node, and nothing is done. -/
  | nothing
  deriving DecidableEq, Repr

/-- How a live node and a fresh one are reconciled. -/
def Match.ofContents : Option Content → Option Content → Match
  | _, none => .nothing
  | none, some _ => .copy
  | some (.text _), some (.text s) => .keepText s
  | some (.element a _), some (.element b _) => if a = b then .keepElement else .replace
  | some _, some _ => .replace

/-- Reconciles two nodes and their trees, as far down as a number of levels. Answers with the node
that stands where the live one stood. -/
def reconcile : Nat → Patch → NodeId → NodeId → Patch × NodeId
  | 0, p, live, _ => (p, live)
  | levels + 1, p, live, fresh =>
    match Match.ofContents (p.dom.content? live) (p.dom.content? fresh) with
    | .nothing => (p, live)
    | .copy => p.copyTree fresh
    | .replace =>
      let (p, copy) := p.copyTree fresh
      (p.replace live copy, copy)
    | .keepText s =>
      (if p.dom.text? live = some s then p else p.setText live s, live)
    | .keepElement =>
      let p := p.alignAttributes live fresh
      (alignChildren (fun p l f => (reconcile levels p l f).1) live p
        (p.dom.children live) (p.dom.children fresh), live)

end Patch

/-- Turns the tree of `live` into an equal of that of `fresh`. Answers with the changes made and
the node that stands where `live` stood. -/
def reconcile (dom : Dom) (live fresh : NodeId) : Patch × NodeId :=
  Patch.reconcile (dom.slots.size + 1) ⟨dom, []⟩ live fresh

end Dom

end LiveMarkup
