import LiveMarkup.Dom.Mutation
import LiveMarkup.Html.Token

/-!
# The tree of a node

The tree below a node is a value of its own (`Dom.tree?`), labelled with the handles of its nodes.
It can be written as markup (`Tree.html`), read as text (`Tree.text`), and copied into the arena
(`Dom.copyTree`).

A tree is not deeper than the arena has slots, and that many levels are followed.
-/

namespace LiveMarkup

/-- A tree of nodes with labels. -/
inductive Tree (α : Type)
  | node (label : α) (content : Content) (children : List (Tree α))
  deriving Repr, Inhabited

namespace Tree

variable {α β : Type}

/-- The label of the root. -/
def label : Tree α → α
  | node a _ _ => a

mutual

/-- The labels of a tree in preorder. -/
def labels : Tree α → List α
  | node a _ children => a :: labelsOfAll children

/-- The labels of trees, one tree behind the other. -/
def labelsOfAll : List (Tree α) → List α
  | [] => []
  | t :: rest => labels t ++ labelsOfAll rest

end

/-- How a character is written in text. -/
def escapeText (c : Char) : String :=
  match c with
  | '&' => "&amp;"
  | '<' => "&lt;"
  | '>' => "&gt;"
  | '\xa0' => "&nbsp;"
  | c => String.singleton c

/-- How a character is written in an attribute value. -/
def escapeAttribute (c : Char) : String :=
  match c with
  | '&' => "&amp;"
  | '"' => "&quot;"
  | '\xa0' => "&nbsp;"
  | c => String.singleton c

/-- A text with every character written in its way. -/
def writeWith (f : Char → String) (s : String) : String := s.foldl (fun acc c => acc ++ f c) ""

/-- The attributes of a start tag. -/
def writeAttributes : List (String × String) → String
  | [] => ""
  | (name, value) :: rest =>
    " " ++ name ++ "=\"" ++ writeWith escapeAttribute value ++ "\"" ++ writeAttributes rest

/-- A start tag. -/
def startTag (tag : String) (attributes : List (String × String)) : String :=
  "<" ++ tag ++ writeAttributes attributes ++ ">"

mutual

/-- The markup of a tree. In raw text, characters stand for themselves. -/
def markup (raw : Bool) : Tree α → String
  | node _ (.text s) _ => if raw then s else writeWith escapeText s
  | node _ (.element tag attributes) children =>
    if Html.isVoid tag then startTag tag attributes
    else
      startTag tag attributes ++ markupOfAll (Html.isRawText tag) children ++
        "</" ++ tag ++ ">"

/-- The markup of trees, one behind the other. -/
def markupOfAll (raw : Bool) : List (Tree α) → String
  | [] => ""
  | t :: rest => markup raw t ++ markupOfAll raw rest

end

/-- The markup of a whole tree. -/
def html (t : Tree α) : String := t.markup false

mutual

/-- The text of a tree: that of its text nodes in document order. -/
def text : Tree α → String
  | node _ (.text s) _ => s
  | node _ (.element _ _) children => textOfAll children

/-- The text of trees, one behind the other. -/
def textOfAll : List (Tree α) → String
  | [] => ""
  | t :: rest => text t ++ textOfAll rest

end

end Tree

namespace Dom

/-- The tree below a node, as far as it goes down in a number of levels. -/
def treeWithin (dom : Dom) : Nat → NodeId → Option (Tree NodeId)
  | 0, _ => none
  | levels + 1, id =>
    (dom.get? id).map fun node =>
      .node id node.content (node.children.filterMap (dom.treeWithin levels))

/-- The tree below a live node. -/
def tree? (dom : Dom) (id : NodeId) : Option (Tree NodeId) := dom.treeWithin dom.slots.size id

/-- The markup of a node and everything below it. -/
def outerHtml (dom : Dom) (id : NodeId) : String := ((dom.tree? id).map Tree.html).getD ""

/-- The text of the nodes of a list and everything below them, in that order; `steps` bounds the
number of nodes that are looked at. -/
def collectText (dom : Dom) : Nat → List NodeId → String → String
  | 0, _, seen => seen
  | _ + 1, [], seen => seen
  | steps + 1, id :: rest, seen =>
    match dom.get? id with
    | none => collectText dom steps rest seen
    | some ⟨.text s, _, _⟩ => collectText dom steps rest (seen ++ s)
    | some ⟨.element _ _, _, children⟩ => collectText dom steps (children ++ rest) seen

/-- The text of a node and everything below it. -/
def textContent (dom : Dom) (id : NodeId) : String := dom.collectText (dom.slots.size + 1) [id] ""

mutual

/-- Puts a copy of a tree into the arena. Nodes are made in preorder, and each is appended to its
parent when everything below it is there. -/
def graft {α : Type} (dom : Dom) : Tree α → Dom × NodeId
  | .node _ content children =>
    let (dom, copy) := dom.allocate content
    (graftAll dom copy children, copy)

/-- Puts copies of trees below a node. -/
def graftAll {α : Type} (dom : Dom) (parent : NodeId) : List (Tree α) → Dom
  | [] => dom
  | t :: rest =>
    let (dom, child) := graft dom t
    graftAll (dom.append parent child) parent rest

end

/-- A copy of a node and everything below it, without a parent. A stale handle is its own copy. -/
def copyTree (dom : Dom) (id : NodeId) : Dom × NodeId :=
  match dom.tree? id with
  | some t => dom.graft t
  | none => (dom, id)

end Dom

end LiveMarkup
