import LiveMarkup.Dom.Fragment
import LiveMarkup.Dom.Tree

/-!
# Changes to the arena

What a caller can do to an arena, as data: a change (`Dom.Change`) makes nodes, links them, frees
them or sets what they are. `Dom.run` makes one change after another.
-/

namespace LiveMarkup

namespace Dom

/-- A change to the arena. -/
inductive Change
  | createElement (tag : String)
  | createText (s : String)
  /-- Markup is read as trees. -/
  | parse (markup : List Char)
  | copyTree (node : NodeId)
  | append (parent child : NodeId)
  | replace (old new : NodeId)
  | remove (node : NodeId)
  | release (node : NodeId)
  | setText (node : NodeId) (s : String)
  | setAttribute (node : NodeId) (name value : String)
  | removeAttribute (node : NodeId) (name : String)
  deriving DecidableEq, Repr

namespace Change

/-- The arena after a change. -/
def apply [Html.Tokenizer] (dom : Dom) : Change → Dom
  | createElement tag => (dom.createElement tag).1
  | createText s => (dom.createText s).1
  | parse markup => (dom.parseFragment markup).1
  | copyTree node => (dom.copyTree node).1
  | append parent child => dom.append parent child
  | replace old new => dom.replace old new
  | remove node => dom.remove node
  | release node => dom.release node
  | setText node s => dom.setText node s
  | setAttribute node name value => dom.setAttribute node name value
  | removeAttribute node name => dom.removeAttribute node name

/-- The handles that a change is given. -/
def handles : Change → List NodeId
  | createElement _ | createText _ | parse _ => []
  | append parent child => [parent, child]
  | replace old new => [old, new]
  | copyTree node | remove node | release node => [node]
  | setText node _ | setAttribute node _ _ | removeAttribute node _ => [node]

end Change

/-- The arena after one change after another. -/
def run [Html.Tokenizer] (dom : Dom) (changes : List Change) : Dom := changes.foldl Change.apply dom

theorem run_append [Html.Tokenizer] (dom : Dom) (changes later : List Change) :
    dom.run (changes ++ later) = (dom.run changes).run later := List.foldl_append

end Dom

end LiveMarkup
