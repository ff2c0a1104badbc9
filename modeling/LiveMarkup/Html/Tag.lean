import LiveMarkup.Html.Reference
import LiveMarkup.Html.Token

/-!
# Tags of markup

A tag is a name, attributes in any order, and at the end `>` or `/>`. What does not fit is passed
over, so that every tag that has an end can be read (`readTag`); where the text ends inside a tag,
there is no tag.
-/

namespace LiveMarkup

namespace Html

/-- The end of the text inside a tag. -/
abbrev TagReading (α : Type) (text : List Char) := Reading Unit α text

/-- A blank between the parts of a tag. -/
def isTagBlank (c : Char) : Bool := c == '\t' || c == '\n' || c == '\x0c' || c == ' '

/-- A character of a tag's name. -/
def isTagNameChar (c : Char) : Bool := !(isTagBlank c || c == '/' || c == '>')

/-- A character of an attribute's name behind the first one. -/
def isAttributeNameChar (c : Char) : Bool := isTagNameChar c && c != '='

/-- A null character is replaced. -/
def replaceNull (c : Char) : Char := if c = '\x00' then replacement else c

/-- A character of a name: ASCII letters are small. -/
def nameChar (c : Char) : Char := replaceNull c.toLower

/-- The text of a name. -/
def nameOf (cs : List Char) : String := String.ofList (cs.map nameChar)

/-- A character, or what a reference in its place stands for; `rest` is the text behind the
character `c`. -/
def readCharacter (inAttribute : Bool) (c : Char) (rest : List Char) : List Char × Rest rest :=
  if c = '&' then (readReference? inAttribute rest).getD (['&'], .all rest)
  else ([replaceNull c], .all rest)

/-- The rest of a quoted value and its end; `seen` holds its characters so far, last one first. -/
def readQuotedValue (quote : Char) (seen : List Char) (text : List Char) :
    TagReading String text :=
  match text with
  | [] => .error ()
  | c :: rest =>
    if c = quote then .tail (String.ofList seen.reverse) c rest
    else
      let (chars, left) := readCharacter true c rest
      (Reading.past left (readQuotedValue quote (chars.reverse ++ seen) left.1)).cons
termination_by text.length
decreasing_by
  have := left.2
  simp only [List.length_cons]
  omega

/-- The rest of a value without quotes, which ends before a blank or `>`. -/
def readBareValue (seen : List Char) (text : List Char) : Scan Unit String text :=
  match text with
  | [] => .error ()
  | c :: rest =>
    if isTagBlank c || c == '>' then Scan.pure (String.ofList seen.reverse) (c :: rest)
    else
      let (chars, left) := readCharacter true c rest
      (Scan.past left (readBareValue (chars.reverse ++ seen) left.1)).cons
termination_by text.length
decreasing_by
  have := left.2
  simp only [List.length_cons]
  omega

/-- An attribute value behind its `=` and blanks. -/
def readAttributeValue (text : List Char) : Scan Unit String text :=
  match text with
  | '"' :: rest => (readQuotedValue '"' [] rest).cons.toScan
  | '\'' :: rest => (readQuotedValue '\'' [] rest).cons.toScan
  | '>' :: rest => Scan.pure "" ('>' :: rest)
  | other => readBareValue [] other

/-- An attribute whose name begins with `c`. One without `=` has an empty value. -/
def readAttribute (c : Char) (rest : List Char) : TagReading (String × String) (c :: rest) :=
  let name := nameOf (c :: rest.takeWhile isAttributeNameChar)
  let behindName := Rest.dropWhile isAttributeNameChar rest
  match afterRun? isTagBlank behindName.1 with
  | some ('=', behindMark) =>
    let value := Rest.dropWhile isTagBlank behindMark.1
    (Reading.past behindName <| Scan.behind behindMark <|
      .past value (readAttributeValue value.1)).cons.map fun v => (name, v)
  | _ => .ok ((name, ""), (behindName.trans (.dropWhile isTagBlank behindName.1)).behind)

/-- The attributes of a tag behind its name, as they are written, and whether it ends in `/>`. -/
def readAttributes (text : List Char) : TagReading (List (String × String) × Bool) text :=
  match text with
  | [] => .error ()
  | c :: rest =>
    if isTagBlank c then (readAttributes rest).cons
    else if c = '>' then .tail ([], false) c rest
    else if c = '/' then
      match rest with
      | '>' :: _ => .ok (([], true), .cons .tail)
      | other => (readAttributes other).cons
    else
      (readAttribute c rest).andThen fun new t _ =>
        ((readAttributes t).map fun (more, selfClosing) => (new :: more, selfClosing)).toScan
termination_by text.length
decreasing_by
  all_goals simp only [List.length_cons] at *
  all_goals omega

/-- The parts of a tag. -/
structure Tag where
  name : String
  attributes : List (String × String)
  selfClosing : Bool
  deriving DecidableEq, Repr

/-- A tag whose name begins with `c`. -/
def readTag (c : Char) (rest : List Char) : TagReading Tag (c :: rest) :=
  let name := nameOf (c :: rest.takeWhile isTagNameChar)
  let behindName := Rest.dropWhile isTagNameChar rest
  (Reading.past behindName (readAttributes behindName.1)).cons.map fun (attributes, selfClosing) =>
    ⟨name, sortAttributes attributes, selfClosing⟩

end Html

end LiveMarkup
