import LiveMarkup.Dom.Arena

/-!
# Changing trees of nodes

Nodes are made without parent and children; then they are put below one another (`append`), put in
place of one another (`replace`) or taken away with everything below them (`remove`). What asks for
a live node and is given a stale handle leaves the arena as it is.

`freeTree` ends on every arena: each step gives up a live node or takes a handle off the list of
those still to be freed.
-/

namespace LiveMarkup

namespace Dom

/-- A new element. ASCII letters of its tag are small. -/
def createElement (dom : Dom) (tag : String) : Dom × NodeId :=
  dom.allocate (.element tag.toLower [])

/-- A new text node. -/
def createText (dom : Dom) (s : String) : Dom × NodeId := dom.allocate (.text s)

/-! ## The data of a node -/

/-- The attributes of an element. -/
def attributes (dom : Dom) (id : NodeId) : OrderedMap String String :=
  match dom.content? id with
  | some (.element _ attributes) => attributes
  | _ => []

/-- The value of an attribute. -/
def attribute? (dom : Dom) (id : NodeId) (name : String) : Option String :=
  OrderedMap.find? (dom.attributes id) name

/-- The content of a text node. -/
def text? (dom : Dom) (id : NodeId) : Option String :=
  match dom.content? id with
  | some (.text s) => some s
  | _ => none

/-- Changes the attributes of an element. -/
def modifyAttributes (dom : Dom) (id : NodeId)
    (f : OrderedMap String String → OrderedMap String String) : Dom :=
  dom.modify id fun node =>
    match node.content with
    | .element tag attributes => { node with content := .element tag (f attributes) }
    | .text _ => node

/-- Gives an attribute a value. -/
def setAttribute (dom : Dom) (id : NodeId) (name value : String) : Dom :=
  dom.modifyAttributes id fun attributes => attributes.put name value

/-- Takes an attribute away. -/
def removeAttribute (dom : Dom) (id : NodeId) (name : String) : Dom :=
  dom.modifyAttributes id fun attributes => attributes.erase name

/-- Changes the content of a text node. -/
def modifyText (dom : Dom) (id : NodeId) (f : String → String) : Dom :=
  dom.modify id fun node =>
    match node.content with
    | .text s => { node with content := .text (f s) }
    | .element _ _ => node

/-- Gives a text node a content. -/
def setText (dom : Dom) (id : NodeId) (s : String) : Dom := dom.modifyText id fun _ => s

/-! ## The links between nodes -/

/-- Takes a node out of its parent's children. -/
def detach (dom : Dom) (id : NodeId) : Dom :=
  match dom.parent? id with
  | none => dom
  | some parent =>
    (dom.modify id fun node => { node with parent := none }).modify parent fun node =>
      { node with children := node.children.filter fun child => child ≠ id }

/-- Makes a node the last child of another one. -/
def append (dom : Dom) (parent child : NodeId) : Dom :=
  if parent = child || !dom.contains parent || !dom.contains child then dom
  else
    ((dom.detach child).modify child fun node => { node with parent := some parent }).modify parent
      fun node => { node with children := node.children ++ [child] }

/-- Frees the nodes of a list and all nodes below them. -/
def freeAll (dom : Dom) (pending : List NodeId) : Dom :=
  match pending with
  | [] => dom
  | id :: rest =>
    match _h : dom.get? id with
    | none => freeAll dom rest
    | some node => freeAll (dom.clear id) (node.children.reverse ++ rest)
termination_by (dom.size, pending.length)
decreasing_by
  · exact Prod.Lex.right _ (by simp)
  · exact Prod.Lex.left _ _ (size_clear_lt _h)

/-- Frees a node and all nodes below it. Its parent is not told. -/
def freeTree (dom : Dom) (id : NodeId) : Dom := dom.freeAll [id]

/-- The first occurrence of a node among children turned into another node. -/
def substitute (old new : NodeId) : List NodeId → List NodeId
  | [] => []
  | id :: rest => if id = old then new :: rest else id :: substitute old new rest

/-- Puts a node where another one is, and frees that one. If it has no parent, the new node is
detached. -/
def replace (dom : Dom) (old new : NodeId) : Dom :=
  if old = new || !dom.contains new then dom
  else
    let dom := dom.detach new
    let linked := match dom.parent? old with
      | none => dom
      | some parent =>
        (dom.modify parent fun node =>
          { node with children := substitute old new node.children }).modify new fun node =>
            { node with parent := some parent }
    linked.freeTree old

/-- Takes a node out of its tree and frees it with everything below it. -/
def remove (dom : Dom) (id : NodeId) : Dom := (dom.detach id).freeTree id

/-- Gives back a tree that is not needed any more. -/
def release (dom : Dom) (id : NodeId) : Dom := dom.remove id

end Dom

end LiveMarkup
