import LiveMarkup.Json.Text
import LiveMarkup.Markup.Escape

/-!
# State values as markup text

A placeholder is replaced by the text of its value (`sanitize`), which is escaped. The items of an
array are joined with commas; an object has one fixed text.
-/

namespace LiveMarkup

/-- The text of any object. -/
def objectText : List Char := "[object Object]".toList

mutual

/-- The text of an item of an array, not yet escaped. A null is empty. -/
def itemText : Value → List Char
  | .string s => s.toList
  | .null => []
  | .bool b => (if b then "true" else "false").toList
  | .number n => n.text.toList
  | .array items => joinedText items
  | .object _ => objectText

/-- The texts of the items of an array, joined with commas. -/
def joinedText : List Value → List Char
  | [] => []
  | [v] => itemText v
  | v :: w :: rest => itemText v ++ ',' :: joinedText (w :: rest)

end

/-- The escaped text of a value. -/
def sanitize : Value → List Char
  | .string s => escape s.toList
  | .null => "null".toList
  | .bool b => (if b then "true" else "false").toList
  | .number n => n.text.toList
  | .array items => escape (joinedText items)
  | .object _ => objectText

end LiveMarkup
