/-!
# Tokens of markup

Markup is a sequence of start tags, end tags and runs of text. Comments and declarations leave no
token. The attributes of a start tag are in the order of their names (`Html.sortAttributes`).

A tokenizer reads any text as tokens (`Html.Tokenizer`). How the text behind a start tag is to be
read depends on its element, and a tokenizer is told so (`Html.contentMode`). What is built from the
tokens takes the tokenizer as it is given.
-/

namespace LiveMarkup

namespace Html

/-- A token of markup. -/
inductive Token
  | startTag (name : String) (attributes : List (String × String)) (selfClosing : Bool)
  | endTag (name : String)
  | text (chars : String)
  deriving DecidableEq, Repr, Inhabited

/-! ## Attributes -/

/-- An attribute put among attributes in the order of their names. One whose name is there already
is left out. -/
def insertAttribute (attributes : List (String × String)) (new : String × String) :
    List (String × String) :=
  match attributes with
  | [] => [new]
  | a :: rest =>
    if a.1 = new.1 then a :: rest
    else if new.1 < a.1 then new :: a :: rest
    else a :: insertAttribute rest new

/-- Attributes in the order of their names; of two with one name the first one counts. -/
def sortAttributes (attributes : List (String × String)) : List (String × String) :=
  attributes.foldl insertAttribute []

/-! ## Elements -/

/-- Elements that have no content. -/
def voidElements : List String :=
  ["area", "base", "br", "col", "embed", "hr", "img", "input", "link", "meta", "param", "source",
    "track", "wbr"]

/-- Whether elements of a name have no content. -/
def isVoid (name : String) : Bool := voidElements.contains name

/-- Elements whose text is written as it is. -/
def rawTextElements : List String := ["script", "style"]

/-- Whether the text in elements of a name is written as it is. -/
def isRawText (name : String) : Bool := rawTextElements.contains name

/-- Elements whose content is read as text with character references. -/
def plainTextElements : List String := ["textarea", "title"]

/-- Whether a start tag opens an element that goes on until its end tag. -/
def opensContent (name : String) (selfClosing : Bool) : Bool := !(selfClosing || isVoid name)

/-! ## Tokenizers -/

/-- How text is read. -/
inductive ContentMode
  | markup
  /-- Text with character references, up to the end tag of the element. -/
  | plainText
  /-- Text without character references, up to the end tag of the element. -/
  | script
  deriving DecidableEq, Repr

/-- How the text behind a start tag is read. ASCII letters of the name are small. -/
def contentMode (name : String) (selfClosing : Bool) : ContentMode :=
  let name := name.toLower
  if !opensContent name selfClosing then .markup
  else if isRawText name then .script
  else if plainTextElements.contains name then .plainText
  else .markup

/-- A tokenizer: the tokens of a text, given how to read on behind a start tag. -/
class Tokenizer where
  tokens : (String → Bool → ContentMode) → List Char → List Token

/-- The tokens of markup. -/
def Token.ofText [Tokenizer] (text : List Char) : List Token := Tokenizer.tokens contentMode text

end Html

end LiveMarkup
