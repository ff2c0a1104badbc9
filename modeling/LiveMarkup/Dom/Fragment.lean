import LiveMarkup.Dom.Mutation
import LiveMarkup.Html.Token

/-!
# Trees from tokens

Tokens are turned into trees by keeping the elements that are open (`Builder`). A start tag makes an
element below the innermost open one, and opens it unless it has no content. An end tag closes the
innermost open element of its name with all elements inside; one that closes nothing is passed over.
Text is joined to text right before it. What is below no element is a root.
-/

namespace LiveMarkup

namespace Dom

/-- Trees under construction. -/
structure Builder where
  dom : Dom
  /-- The open elements, the innermost first. -/
  openElements : List NodeId
  /-- The roots so far, the last one first. -/
  roots : List NodeId
  deriving Repr, Inhabited

namespace Builder

/-- Puts a node below the innermost open element, or makes it a root. -/
def place (b : Builder) (id : NodeId) : Builder :=
  match b.openElements with
  | parent :: _ => { b with dom := b.dom.append parent id }
  | [] => { b with roots := id :: b.roots }

/-- The node right before the place where the next one comes. -/
def previous? (b : Builder) : Option NodeId :=
  match b.openElements with
  | parent :: _ => (b.dom.children parent).getLast?
  | [] => b.roots.head?

/-- Adds text. -/
def addText (b : Builder) (s : String) : Builder :=
  let fresh : Builder :=
    let (dom, id) := b.dom.createText s
    { b with dom := dom }.place id
  match b.previous? with
  | none => fresh
  | some last =>
    match b.dom.text? last with
    | some _ => { b with dom := b.dom.modifyText last (· ++ s) }
    | none => fresh

/-- Adds an element. ASCII letters of its name are small. -/
def addElement (b : Builder) (name : String) (attributes : List (String × String))
    (selfClosing : Bool) : Builder :=
  let (dom, id) := b.dom.createElement name
  let dom := attributes.foldl (fun dom (n, v) => dom.setAttribute id n v) dom
  let placed := { b with dom := dom }.place id
  if Html.opensContent name.toLower selfClosing then
    { placed with openElements := id :: placed.openElements }
  else placed

/-- Whether a node is an element with a tag. -/
def isElement (dom : Dom) (tag : String) (id : NodeId) : Bool :=
  match dom.content? id with
  | some (.element t _) => t == tag
  | _ => false

/-- The open elements behind the end tag of a name. -/
def close (dom : Dom) (name : String) (openElements : List NodeId) : List NodeId :=
  match openElements.dropWhile fun id => !isElement dom name id with
  | [] => openElements
  | _ :: outer => outer

/-- Goes on with a token. Below an element, empty text is passed over. -/
def step (b : Builder) : Html.Token → Builder
  | .startTag name attributes selfClosing => b.addElement name attributes selfClosing
  | .endTag name => { b with openElements := close b.dom name.toLower b.openElements }
  | .text s => if s.isEmpty && !b.openElements.isEmpty then b else b.addText s

end Builder

/-- Builds trees from tokens. The roots are in document order. -/
def build (dom : Dom) (tokens : List Html.Token) : Dom × List NodeId :=
  let b := tokens.foldl Builder.step ⟨dom, [], []⟩
  (b.dom, b.roots.reverse)

/-- Reads markup as trees. The roots are in document order. -/
def parseFragment [Html.Tokenizer] (dom : Dom) (markup : List Char) : Dom × List NodeId :=
  dom.build (Html.Token.ofText markup)

end Dom

end LiveMarkup
