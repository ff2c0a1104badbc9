import LiveMarkup.Json.Value
import LiveMarkup.Number.Shortest

/-!
# The text of a JSON value

`Value.compact` writes a value without blanks, `Value.pretty` with one item or field a line and
two blanks a level. In a string, quotes, backslashes and control characters are escaped and all
else stands for itself.
-/

namespace LiveMarkup

/-- Numbers have a point or an exponent if they are doubles, and are plain from `1e-5` up to below
`1e16`. -/
def Number.layout : Decimal.Layout where
  plainFrom := -5
  plainBelow := 16
  wholeEnding := ".0"
  exponentMark := "e+"
  negativeExponentMark := "e-"

/-- The text of a number. -/
def Number.text : Number → String
  | .int n => toString n
  | .float x => x.write Number.layout

namespace Value

/-- How one character of a string is written between the quotes. -/
def escapeChar (c : Char) : String :=
  if c = '"' then "\\\""
  else if c = '\\' then "\\\\"
  else if c = '\x08' then "\\b"
  else if c = '\t' then "\\t"
  else if c = '\n' then "\\n"
  else if c = '\x0c' then "\\f"
  else if c = '\r' then "\\r"
  else if c.toNat < 0x20 then
    "\\u00" ++ String.ofList [Nat.digitChar (c.toNat / 16), Nat.digitChar (c.toNat % 16)]
  else String.singleton c

/-- A string in quotes. -/
def quote (s : String) : String :=
  s.foldl (fun acc c => acc ++ escapeChar c) "\"" ++ "\""

mutual

/-- The text of a value without blanks. -/
def compact : Value → String
  | null => "null"
  | bool b => if b then "true" else "false"
  | number n => n.text
  | string s => quote s
  | array items => "[" ++ compactItems items ++ "]"
  | object fields => "\x7b" ++ compactFields fields ++ "\x7d"

/-- The items of an array, separated by commas. -/
def compactItems : List Value → String
  | [] => ""
  | [v] => compact v
  | v :: w :: rest => compact v ++ "," ++ compactItems (w :: rest)

/-- The fields of an object, separated by commas. -/
def compactFields : List (String × Value) → String
  | [] => ""
  | [(k, v)] => quote k ++ ":" ++ compact v
  | (k, v) :: w :: rest => quote k ++ ":" ++ compact v ++ "," ++ compactFields (w :: rest)

end

/-- A line break and the indentation of a level. -/
def newline (level : Nat) : String := "\n" ++ String.ofList (List.replicate (2 * level) ' ')

mutual

/-- The text of a value with one item or field a line. -/
def pretty (level : Nat) : Value → String
  | null => "null"
  | bool b => if b then "true" else "false"
  | number n => n.text
  | string s => quote s
  | array [] => "[]"
  | array (v :: rest) => "[" ++ prettyItems (level + 1) (v :: rest) ++ newline level ++ "]"
  | object [] => "\x7b\x7d"
  | object (v :: rest) => "\x7b" ++ prettyFields (level + 1) (v :: rest) ++ newline level ++ "\x7d"

/-- The items of an array, each on its line. -/
def prettyItems (level : Nat) : List Value → String
  | [] => ""
  | [v] => newline level ++ pretty level v
  | v :: w :: rest => newline level ++ pretty level v ++ "," ++ prettyItems level (w :: rest)

/-- The fields of an object, each on its line. -/
def prettyFields (level : Nat) : List (String × Value) → String
  | [] => ""
  | [(k, v)] => newline level ++ quote k ++ ": " ++ pretty level v
  | (k, v) :: w :: rest =>
    newline level ++ quote k ++ ": " ++ pretty level v ++ "," ++ prettyFields level (w :: rest)

end

end Value

end LiveMarkup
