import LiveMarkup.Html.RawText
import LiveMarkup.Html.Token

/-!
# A tokenizer

A tokenizer that can be run (`readTokens`). Any text can be read: what is no tag is text. If the
content behind a start tag is not to be read as markup, it follows as text, up to the element's end
tag.
-/

namespace LiveMarkup

namespace Html

/-- A line break is one character. -/
def unifyLineBreaks (text : List Char) : List Char :=
  match text with
  | [] => []
  | '\r' :: '\n' :: rest => '\n' :: unifyLineBreaks rest
  | '\r' :: rest => '\n' :: unifyLineBreaks rest
  | c :: rest => c :: unifyLineBreaks rest

/-- A run of text as a token, unless it is empty; `seen` holds its characters, last one first. -/
def flushText (seen : List Char) (tokens : List Token) : List Token :=
  if seen.isEmpty then tokens else .text (String.ofList seen.reverse) :: tokens

/-- The text behind the next `>`. -/
def skipDeclaration : List Char → List Char
  | [] => []
  | '>' :: rest => rest
  | _ :: rest => skipDeclaration rest

/-- The text behind the end of a comment. -/
def skipCommentBody : List Char → List Char
  | [] => []
  | '-' :: '-' :: '>' :: rest => rest
  | '-' :: '-' :: '!' :: '>' :: rest => rest
  | _ :: rest => skipCommentBody rest

/-- The text behind a comment, from behind its `<!--`. -/
def skipComment (text : List Char) : List Char :=
  match text with
  | '>' :: rest => rest
  | '-' :: '>' :: rest => rest
  | other => skipCommentBody other

theorem length_skipDeclaration_le (text : List Char) :
    (skipDeclaration text).length ≤ text.length := by
  fun_induction skipDeclaration text <;> simp only [List.length_cons, List.length_nil] <;> omega

theorem length_skipCommentBody_le (text : List Char) :
    (skipCommentBody text).length ≤ text.length := by
  fun_induction skipCommentBody text <;> simp only [List.length_cons, List.length_nil] <;> omega

theorem length_skipComment_le (text : List Char) : (skipComment text).length ≤ text.length := by
  simp only [skipComment]
  split
  · simp
  · simp only [List.length_cons]
    omega
  · exact length_skipCommentBody_le text

/-- What is left behind the next `>`. -/
def behindDeclaration (text : List Char) : Rest text :=
  ⟨skipDeclaration text, length_skipDeclaration_le text⟩

/-- What is left behind a comment, from behind its `<!--`. -/
def behindComment (text : List Char) : Rest text := ⟨skipComment text, length_skipComment_le text⟩

/-- What stands behind a `<`. -/
inductive Opening (text : List Char)
  /-- The `<` stands for itself. -/
  | literal
  /-- Something that leaves no token. -/
  | nothing (rest : Rest text)
  | startTag (tag : Tag) (rest : Rest text)
  | endTag (tag : Tag) (rest : Rest text)
  /-- The text ends inside a tag. -/
  | unfinished

/-- Reads what stands behind a `<`. -/
def Opening.read (text : List Char) : Opening text :=
  match text with
  | [] => literal
  | c :: rest =>
    if c.isAlpha then
      match readTag c rest with
      | .ok (tag, left) => startTag tag left.toRest
      | .error () => unfinished
    else if c = '/' then
      match rest with
      | [] => literal
      | d :: behind =>
        if d.isAlpha then
          match readTag d behind with
          | .ok (tag, left) => endTag tag left.toRest.cons
          | .error () => unfinished
        else nothing (behindDeclaration (d :: behind)).cons
    else if c = '!' then
      match rest with
      | '-' :: '-' :: body => nothing (behindComment body).cons.cons.cons
      | other => nothing (behindDeclaration other).cons
    else if c = '?' then nothing (behindDeclaration rest).cons
    else literal

/-- The content behind a start tag of an element with a name, unless it is read as markup. -/
def readContent (mode : ContentMode) (name : String) (text : List Char) : List Char × Rest text :=
  match mode with
  | .markup => ([], .all text)
  | .plainText => readPlainText name.toList [] text
  | .script => readScript name.toList .plain [] text

/-- The tokens of markup with unified line breaks, given how to read on behind a start tag; `seen`
holds the text right before it, last character first. -/
def readTokens (mode : String → Bool → ContentMode) (seen : List Char) (text : List Char) :
    List Token :=
  match text with
  | [] => flushText seen []
  | c :: rest =>
    if c = '<' then
      match Opening.read rest with
      | .literal => readTokens mode (c :: seen) rest
      | .nothing left => flushText seen (readTokens mode [] left.1)
      | .unfinished => flushText seen []
      | .endTag tag left => flushText seen (.endTag tag.name :: readTokens mode [] left.1)
      | .startTag tag left =>
        let (content, behind) := readContent (mode tag.name tag.selfClosing) tag.name left.1
        flushText seen (.startTag tag.name tag.attributes tag.selfClosing ::
          flushText content.reverse (readTokens mode [] behind.1))
    else if c = '&' then
      match readReference? false rest with
      | some (chars, left) => readTokens mode (chars.reverse ++ seen) left.1
      | none => readTokens mode (c :: seen) rest
    else readTokens mode (c :: seen) rest
termination_by text.length
decreasing_by
  all_goals simp only [List.length_cons]
  · omega
  · have := left.2
    omega
  · have := left.2
    omega
  · have := left.2
    have := behind.2
    omega
  · have := left.2
    omega
  · omega
  · omega

/-- The tokens of markup can be read. -/
instance : Tokenizer := ⟨fun mode text => readTokens mode [] (unifyLineBreaks text)⟩

end Html

end LiveMarkup
