import LiveMarkup.OrderedMap

/-!
# The arena of nodes

Nodes live in the slots of an arena. A slot that is given up is used again, under a new generation,
so that a handle (`NodeId`) names one node and no later one; a handle whose node is gone is stale.

* `Dom.get?` is the node of a handle, and none for a stale one.
* `Dom.allocate` puts a new node into the slot that was given up last, or into a new one.
* `Dom.clear` gives up a slot.
* `Dom.size` counts the live nodes; clearing a live one lowers it (`size_clear_lt`).
-/

namespace LiveMarkup

/-- A handle of a node: the slot, and the generation of the slot's use. -/
structure NodeId where
  index : Nat
  generation : UInt32
  deriving DecidableEq, Repr, Inhabited

/-- What a node is. -/
inductive Content
  | element (tag : String) (attributes : OrderedMap String String)
  | text (s : String)
  deriving DecidableEq, Repr, Inhabited

/-- A node and its place among others. -/
structure Node where
  content : Content
  parent : Option NodeId
  children : List NodeId
  deriving DecidableEq, Repr, Inhabited

/-- A slot of the arena. -/
structure Slot where
  generation : UInt32
  node : Option Node
  deriving DecidableEq, Repr, Inhabited

/-- Trees of nodes. -/
structure Dom where
  slots : Array Slot
  /-- The slots that are free, the one given up last in front. -/
  free : List Nat
  deriving Repr, Inhabited

namespace Dom

/-- No nodes. -/
def empty : Dom := ⟨#[], []⟩

/-- The node of a handle. -/
def get? (dom : Dom) (id : NodeId) : Option Node :=
  match dom.slots[id.index]? with
  | some slot => if slot.generation = id.generation then slot.node else none
  | none => none

/-- Whether a handle names a live node. -/
def contains (dom : Dom) (id : NodeId) : Bool := (dom.get? id).isSome

/-- The parent of a node. -/
def parent? (dom : Dom) (id : NodeId) : Option NodeId := (dom.get? id).bind Node.parent

/-- The children of a node. -/
def children (dom : Dom) (id : NodeId) : List NodeId := ((dom.get? id).map Node.children).getD []

/-- What a node is. -/
def content? (dom : Dom) (id : NodeId) : Option Content := (dom.get? id).map Node.content

/-- The number of live nodes. -/
def size (dom : Dom) : Nat := dom.slots.countP fun slot => slot.node.isSome

/-- Changes a live node. A stale handle changes nothing. -/
def modify (dom : Dom) (id : NodeId) (f : Node → Node) : Dom :=
  match dom.slots[id.index]? with
  | some slot =>
    if slot.generation = id.generation then
      { dom with slots := dom.slots.set! id.index { slot with node := slot.node.map f } }
    else dom
  | none => dom

/-- Puts a new node without parent and children into the arena. -/
def allocate (dom : Dom) (content : Content) : Dom × NodeId :=
  let fresh : Dom × NodeId :=
    ({ dom with slots := dom.slots.push ⟨0, some ⟨content, none, []⟩⟩ }, ⟨dom.slots.size, 0⟩)
  match dom.free with
  | [] => fresh
  | index :: rest =>
    match dom.slots[index]? with
    | some slot =>
      (⟨dom.slots.set! index { slot with node := some ⟨content, none, []⟩ }, rest⟩,
        ⟨index, slot.generation⟩)
    | none => ({ fresh.1 with free := rest }, fresh.2)

/-- Gives up the slot of a live node, under the next generation. -/
def clear (dom : Dom) (id : NodeId) : Dom :=
  match dom.get? id with
  | some _ =>
    { slots := dom.slots.set! id.index ⟨id.generation + 1, none⟩, free := id.index :: dom.free }
  | none => dom

theorem getElem?_of_get? {dom : Dom} {id : NodeId} {node : Node} (h : dom.get? id = some node) :
    dom.slots[id.index]? = some ⟨id.generation, some node⟩ := by
  rw [get?] at h
  split at h
  · next slot hs =>
    split at h
    · next hg =>
      rw [hs, ← hg, ← h]
    · cases h
  · cases h

theorem size_clear_lt {dom : Dom} {id : NodeId} {node : Node} (h : dom.get? id = some node) :
    (dom.clear id).size < dom.size := by
  have hs := getElem?_of_get? h
  obtain ⟨hi, hn⟩ := Array.getElem?_eq_some_iff.1 hs
  have pos : 0 < dom.slots.countP fun slot => slot.node.isSome :=
    Array.countP_pos_iff.2 ⟨dom.slots[id.index], Array.getElem_mem hi, by rw [hn]; rfl⟩
  simp only [clear, h, size, Array.set!_eq_setIfInBounds, Array.setIfInBounds, hi, dite_true]
  rw [Array.countP_set]
  simp only [hn, Option.isSome_some, if_true, Option.isSome_none, Bool.false_eq_true, if_false]
  omega

end Dom

end LiveMarkup
