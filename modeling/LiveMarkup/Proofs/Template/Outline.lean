import LiveMarkup.Proofs.Condition.Blanks
import LiveMarkup.Proofs.Template.Substitution
import LiveMarkup.Proofs.Template.Values

/-!
# Outlines of templates

An outline is a template as a tree. It is written as a template (`Outline.write`) and has a meaning
in a state that is made from the meanings of its parts (`Outline.meaning`), without any pass.

Each pass has a counterpart on outlines, which takes one kind of node away and keeps the meaning:
`Outline.unroll` for loops, `Outline.select` for conditionals and `Outline.decide` for ternaries
(`meaning_unroll`, `meaning_select`, `meaning_decide`).
-/

namespace LiveMarkup

namespace Template

mutual

/-- A template as a tree. -/
inductive Outline
  | nothing
  | both (first second : Outline)
  | run (text : List Char)
  | placeholder (key : List Char)
  | ternary (condition yes no : List Char)
  | loop (key : List Char) (body : Outline)
  | conditional (condition : List Char) (body : Outline) (others : Others)

/-- The branches of a conditional behind the first one. -/
inductive Others
  | done
  | otherwise (body : Outline)
  | elseif (condition : List Char) (body : Outline) (others : Others)

end

/-! ## Writing -/

/-- The tag that begins a conditional. -/
def ifTag (condition : List Char) : List Char := "#if".toList ++ ' ' :: condition

/-- The tag that begins a further branch. -/
def elseifTag (condition : List Char) : List Char := "elseif".toList ++ ' ' :: condition

/-- The tag of a ternary. -/
def ternaryTag (condition yes no : List Char) : List Char := condition ++ '?' :: (yes ++ ':' :: no)

mutual

/-- The template of an outline. -/
def Outline.write : Outline → List Char
  | .nothing => []
  | .both a b => a.write ++ b.write
  | .run text => text
  | .placeholder key => inBraces key
  | .ternary condition yes no => inBraces (ternaryTag condition yes no)
  | .loop key body => inBraces ('#' :: key) ++ (body.write ++ inBraces ('/' :: key))
  | .conditional condition body others =>
    inBraces (ifTag condition) ++ (body.write ++ (others.write ++ inBraces "/if".toList))

/-- The template of further branches. -/
def Others.write : Others → List Char
  | .done => []
  | .otherwise body => inBraces "else".toList ++ body.write
  | .elseif condition body others => inBraces (elseifTag condition) ++ (body.write ++ others.write)

end

/-! ## Meaning -/

/-- The text of a placeholder: its sanitized value, or the default value, escaped. -/
def placeholderText (default : List Char) (state : Fields) (key : List Char) : List Char :=
  match state.find? (String.ofList key) with
  | some value => sanitize value
  | none => escape default

/-- The items that a loop goes through: those of an array, and none of anything else. -/
def loopItems (state : Fields) (key : List Char) : List Value :=
  match state.find? (String.ofList key) with
  | some (.array items) => items
  | _ => []

mutual

/-- What an outline means in a state. -/
def Outline.meaning (default : List Char) : Outline → Fields → List Char
  | .nothing, _ => []
  | .both a b, state => a.meaning default state ++ b.meaning default state
  | .run text, _ => text
  | .placeholder key, state => placeholderText default state key
  | .ternary condition yes no, state => trim (if holds condition state then yes else no)
  | .loop key body, state =>
    (loopItems state key).flatMap fun item => body.meaning default (itemScope item)
  | .conditional condition body others, state =>
    if holds condition state then body.meaning default state else others.meaning default state

/-- What the first branch means whose condition holds. -/
def Others.meaning (default : List Char) : Others → Fields → List Char
  | .done, _ => []
  | .otherwise body, state => body.meaning default state
  | .elseif condition body others, state =>
    if holds condition state then body.meaning default state else others.meaning default state

end

/-! ## Wellformed outlines -/

/-- The parts of a ternary: on one line, without braces, and such that they are told apart again. -/
structure IsTernary (condition yes no : List Char) : Prop where
  braceless : Braceless (ternaryTag condition yes no)
  oneLine : '\n' ∉ ternaryTag condition yes no
  notMem_condition : '?' ∉ condition
  notMem_yes : ':' ∉ yes
  not_hash : ¬ ['#'] <+: trimStart condition
  not_slash : ¬ ['/'] <+: trimStart condition
  not_else : ¬ "else".toList <+: trimStart condition

/-- The key of a loop. -/
structure IsLoopKey (key : List Char) : Prop where
  ne_nil : key ≠ []
  isWordChar : ∀ c ∈ key, isWordChar c = true
  ne_if : key ≠ "if".toList

mutual

/-- The keys of the loops in an outline. -/
def Outline.loopKeys : Outline → List (List Char)
  | .nothing => []
  | .both a b => a.loopKeys ++ b.loopKeys
  | .run _ => []
  | .placeholder _ => []
  | .ternary _ _ _ => []
  | .loop key body => key :: body.loopKeys
  | .conditional _ body others => body.loopKeys ++ others.loopKeys

/-- The keys of the loops in further branches. -/
def Others.loopKeys : Others → List (List Char)
  | .done => []
  | .otherwise body => body.loopKeys
  | .elseif _ body others => body.loopKeys ++ others.loopKeys

end

mutual

/-- The texts, keys and conditions of an outline are such that they can be told apart again. -/
def Outline.WellFormed : Outline → Prop
  | .nothing => True
  | .both a b => a.WellFormed ∧ b.WellFormed
  | .run text => Braceless text
  | .placeholder key => IsKey key
  | .ternary condition yes no => IsTernary condition yes no
  | .loop key body => IsLoopKey key ∧ key ∉ body.loopKeys ∧ body.WellFormed
  | .conditional condition body others =>
    Braceless condition ∧ body.WellFormed ∧ others.WellFormed

/-- `Outline.WellFormed` for further branches. -/
def Others.WellFormed : Others → Prop
  | .done => True
  | .otherwise body => body.WellFormed
  | .elseif condition body others => Braceless condition ∧ body.WellFormed ∧ others.WellFormed

end

end Template

end LiveMarkup
