import LiveMarkup.Html.Tag

/-!
# Raw text

The content of a script or style element is text up to the end tag with the element's name. Inside
`<!--` and `-->` a script may contain a whole script element, whose end tag does not count; such
places are followed by `Script` (`readScript`).
-/

namespace LiveMarkup

namespace Html

/-- Where in a script a place is. -/
inductive Script
  | plain
  /-- Behind `<!--`, and behind as many dashes. -/
  | escaped (dashes : Nat)
  /-- In a script element behind `<!--`, and behind as many dashes. -/
  | doubleEscaped (dashes : Nat)
  deriving DecidableEq, Repr

/-- What ends the name of a tag. -/
def endsTagName (c : Char) : Bool := isTagBlank c || c == '/' || c == '>'

/-- Whether the text behind a `<` is an end tag with a name. -/
def beginsEndTag (name : List Char) (text : List Char) : Bool :=
  match text with
  | '/' :: rest =>
    (rest.takeWhile Char.isAlpha).map Char.toLower == name &&
      (rest.dropWhile Char.isAlpha).head?.any endsTagName
  | _ => false

/-- The two dashes behind which `>` ends an escape. -/
def maxDashes : Nat := 2

/-- The place behind a character other than `<`. -/
def Script.step (s : Script) (c : Char) : Script :=
  let dash (n : Nat) : Nat := if c = '-' then min (n + 1) maxDashes else 0
  match s with
  | plain => plain
  | escaped n => if n = maxDashes ∧ c = '>' then plain else escaped (dash n)
  | doubleEscaped n => if n = maxDashes ∧ c = '>' then plain else doubleEscaped (dash n)

/-- The place behind a `<` and a word, if the word is ended by a character of its kind; `inside` is
the place if the word is that of a script element, and `outside` if not. -/
def Script.behindWord (inside outside : Script) (word : List Char) (behind : List Char) : Script :=
  if behind.head?.any endsTagName ∧ word.map Char.toLower = "script".toList then inside else outside

/-- How the text behind a `<` is gone over that begins no end tag: how many of its characters belong
to the same marker, and the place behind them. -/
def Script.marker (s : Script) (text : List Char) : Nat × Script :=
  match s with
  | plain => if text.take 3 = "!--".toList then (3, escaped maxDashes) else (0, plain)
  | escaped _ =>
    let word := text.takeWhile Char.isAlpha
    let behind := text.dropWhile Char.isAlpha
    if word.isEmpty then (0, escaped 0)
    else if behind.head?.any endsTagName then
      (word.length + 1, behindWord (doubleEscaped 0) (escaped 0) word behind)
    else (word.length, escaped 0)
  | doubleEscaped _ =>
    match text with
    | '/' :: rest =>
      let word := rest.takeWhile Char.isAlpha
      let behind := rest.dropWhile Char.isAlpha
      if behind.head?.any endsTagName then
        (word.length + 2, behindWord (escaped 0) (doubleEscaped 0) word behind)
      else (word.length + 1, doubleEscaped 0)
    | _ => (0, doubleEscaped 0)

/-- Whether an end tag counts at a place. -/
def Script.mayEnd : Script → Bool
  | doubleEscaped _ => false
  | _ => true

/-- The content of a script up to its end tag, of which the `<` is left; `seen` holds the content so
far, last character first. -/
def readScript (name : List Char) (s : Script) (seen : List Char) (text : List Char) :
    List Char × Rest text :=
  match text with
  | [] => (seen.reverse, .all [])
  | c :: rest =>
    if c = '<' then
      if s.mayEnd && beginsEndTag name rest then (seen.reverse, .all (c :: rest))
      else
        let (taken, place) := s.marker rest
        let behind := Rest.drop taken rest
        let (content, left) := readScript name place
          ((rest.take taken).reverse.map replaceNull ++ c :: seen) behind.1
        (content, (behind.trans left).cons)
    else
      let (content, left) := readScript name (s.step c) (replaceNull c :: seen) rest
      (content, left.cons)
termination_by text.length
decreasing_by
  · have := (Rest.drop taken rest).2
    simp only [List.length_cons]
    omega
  · simp

/-- Text with character references up to the end tag of a name, of which the `<` is left. -/
def readPlainText (name : List Char) (seen : List Char) (text : List Char) :
    List Char × Rest text :=
  match text with
  | [] => (seen.reverse, .all [])
  | c :: rest =>
    if c = '<' && beginsEndTag name rest then (seen.reverse, .all (c :: rest))
    else
      let (chars, behind) := readCharacter false c rest
      let (content, left) := readPlainText name (chars.reverse ++ seen) behind.1
      (content, (behind.trans left).cons)
termination_by text.length
decreasing_by
  have := behind.2
  simp only [List.length_cons]
  omega

end Html

end LiveMarkup
