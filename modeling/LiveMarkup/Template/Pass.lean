import LiveMarkup.Condition.Evaluation
import LiveMarkup.Markup.Sanitize
import LiveMarkup.Template.Block
import LiveMarkup.Template.Expansion

/-!
# The passes over a template

Each pass replaces one kind of marker and leaves all other text as it is. A marker that looks like
a pass's own but cannot be split into its parts is left as well.

* `applyDirective` replaces the blocks of one directive.
* `unrollLoops` repeats the body of a loop for the items of an array.
* `selectBranches` keeps of each conditional the first branch whose condition holds.
* `selectTernaries` does the same for `{{condition ? yes : no}}`.
* `fillPlaceholders` replaces `{{key}}` by the sanitized value under the key.
* `bindEvents` writes `event:name` as an attribute.
-/

namespace LiveMarkup

namespace Template

/-- A directive: a name, and what a block with that name is replaced by, given its arguments, its
content and the state. -/
structure Directive where
  name : String
  expand : List Char → List Char → Fields → List Char

/-! ## Directives -/

/-- The start of the blocks of a directive. -/
def directiveStart (name : List Char) : List Char := openBraces ++ '#' :: name

/-- Replaces the blocks of one directive. Its own output is not looked at again. -/
def applyDirective (d : Directive) (state : Fields) (text : List Char) : Expansion :=
  match _hs : splitOnce? (directiveStart d.name.toList) text with
  | none => .literal text
  | some (before, afterOpen) =>
    match _hd : readDirective? d.name.toList afterOpen with
    | none =>
      .literal (before ++ directiveStart d.name.toList) ++ applyDirective d state afterOpen
    | some (arguments, content, rest) =>
      .literal before ++
        ⟨d.expand arguments content state, [.expanded d.name arguments content state]⟩ ++
        applyDirective d state rest
termination_by text.length
decreasing_by
  all_goals have short := length_of_splitOnce? _hs
  all_goals simp only [directiveStart, openBraces, List.length_append, List.length_cons] at short
  · omega
  · have := length_of_readDirective? _hd
    omega

/-- Replaces the blocks of every directive in turn, each in the output of those before it. -/
def applyDirectives (ds : List Directive) (state : Fields) (text : List Char) : Expansion :=
  ds.foldl (fun acc d => acc.andThen (applyDirective d state)) (.literal text)

/-! ## Loops -/

theorem depth_lt_of_item {state : Fields} {key : String} {items : List Value} {item : Value}
    (h : state.find? key = some (.array items)) (hi : item ∈ items) :
    item.depth < Value.fieldsDepth state := by
  have := Value.depth_le_itemsDepth hi
  have := Value.depth_le_fieldsDepth (Fields.mem_of_find? h)
  rw [Value.depth] at this
  omega

/-- What marks a block. -/
def blockStart : List Char := openBraces ++ ['#']

/-- A value that is nested less deep than a state. -/
abbrev Inner (state : Fields) := { item : Value // item.depth < Value.fieldsDepth state }

/-- The items of the array under a key. -/
def itemsUnder? (state : Fields) (key : String) : Option (List (Inner state)) :=
  match h : state.find? key with
  | some (.array items) =>
    some (items.attach.map fun item => ⟨item.1, depth_lt_of_item h item.2⟩)
  | _ => none

theorem map_itemsUnder? {state : Fields} {key : String} {items : List Value}
    (h : state.find? key = some (.array items)) :
    (itemsUnder? state key).map (List.map Subtype.val) = some items := by
  rw [itemsUnder?]
  split
  · next found h' =>
    rw [h] at h'
    cases h'
    simp
  · next no =>
    exact absurd h (no items)

/-- Repeats the body of every loop. `each` expands a body for an item. A loop over anything but an
array is empty and reported. -/
def unrollLoops (state : Fields) (each : List Char → Inner state → Expansion)
    (text : List Char) : Expansion :=
  match _hs : splitOnce? blockStart text with
  | none => .literal text
  | some (before, afterOpen) =>
    match _hl : readLoop? afterOpen with
    | none => .literal (before ++ blockStart) ++ unrollLoops state each afterOpen
    | some (key, content, rest) =>
      let repeated : Expansion :=
        match itemsUnder? state (String.ofList key) with
        | some items => .concat (items.map (each content))
        | none => ⟨[], [.reported (.loopTargetNotSequence (String.ofList key))]⟩
      .literal before ++ repeated ++ unrollLoops state each rest
termination_by text.length
decreasing_by
  all_goals have short := length_of_splitOnce? _hs
  all_goals simp only [blockStart, openBraces, List.length_append, List.length_cons] at short
  · omega
  · have := length_of_readLoop? _hl
    omega

/-! ## Conditionals -/

/-- The body of the first branch whose condition holds, and what evaluating the conditions up to
there reports. -/
def chooseBranch (state : Fields) : List Branch → Option Branch × List Diagnostic
  | [] => (none, [])
  | b :: rest =>
    match b.condition? with
    | none => (some b, [])
    | some condition =>
      let (holds, reported) := decideCondition condition state
      if holds then (some b, reported.toList)
      else
        let (chosen, more) := chooseBranch state rest
        (chosen, reported.toList ++ more)

theorem mem_of_chooseBranch {state : Fields} {branches : List Branch} {b : Branch}
    (h : (chooseBranch state branches).1 = some b) : b ∈ branches := by
  induction branches with
  | nil => cases h
  | cons a rest ih =>
    rw [chooseBranch] at h
    split at h
    · cases h
      exact List.mem_cons_self
    · simp only at h
      split at h
      · cases h
        exact List.mem_cons_self
      · exact List.mem_cons_of_mem _ (ih h)

/-- The start of a conditional. -/
def conditionalStart : List Char := openBraces ++ "#if".toList

/-- Replaces every conditional by its chosen branch, in which conditionals are replaced in their
turn. -/
def selectBranches (state : Fields) (text : List Char) : Expansion :=
  match _hs : splitOnce? conditionalStart text with
  | none => .literal text
  | some (before, afterOpen) =>
    match _hc : readConditional? afterOpen with
    | none => .literal (before ++ conditionalStart) ++ selectBranches state afterOpen
    | some c =>
      let choice := chooseBranch state c.branches
      let body : Expansion :=
        match _hb : choice.1 with
        | some b => selectBranches state b.body
        | none => .literal []
      .literal before ++ ⟨body.text, choice.2.map .reported ++ body.events⟩ ++
        selectBranches state c.rest
termination_by text.length
decreasing_by
  all_goals have short := length_of_splitOnce? _hs
  all_goals simp only [conditionalStart, openBraces, List.length_append, List.length_cons] at short
  · omega
  · have := (within_of_readConditional? _hc).2 b (mem_of_chooseBranch _hb)
    omega
  · have := (within_of_readConditional? _hc).1
    omega

/-! ## Ternaries and placeholders -/

/-- Whether a tag belongs to a block and is no placeholder. -/
def isBlockTag (tag : List Char) : Bool :=
  match tag with
  | '#' :: _ => true
  | '/' :: _ => true
  | _ => tag == "else".toList || (afterKeyword? "elseif".toList tag).isSome

/-- The parts of a tag `condition ? yes : no`. -/
def splitTernary? (tag : List Char) : Option (List Char × List Char × List Char) :=
  match splitOnce? ['?'] tag with
  | none => none
  | some (condition, branches) =>
    match splitOnce? [':'] branches with
    | none => none
    | some (yes, no) => some (condition, yes, no)

/-- Replaces a ternary by its chosen branch. -/
def substituteTernary (state : Fields) (tag : List Char) : Substitution :=
  if isBlockTag (trimStart tag) then ⟨none, []⟩
  else
    match splitTernary? tag with
    | none => ⟨none, []⟩
    | some (condition, yes, no) =>
      let (holds, reported) := decideCondition condition state
      ⟨some (trim (if holds then yes else no)), reported.toList⟩

/-- Replaces every ternary. -/
def selectTernaries (state : Fields) (text : List Char) : Expansion :=
  substituteTags (substituteTernary state) text

/-- Replaces a placeholder by its value, or by the default value. A tag that is no placeholder is
reported. -/
def substitutePlaceholder (default : List Char) (state : Fields) (tag : List Char) : Substitution :=
  let key := trim tag
  if key.isEmpty || isBlockTag key then
    ⟨none, [.unmatchedMarker (String.ofList (inBraces tag))]⟩
  else
    match state.find? (String.ofList key) with
    | some value => ⟨some (sanitize value), []⟩
    | none => ⟨some (escape default), [.missingPlaceholder (String.ofList key)]⟩

/-- Replaces every placeholder. -/
def fillPlaceholders (default : List Char) (state : Fields) (text : List Char) : Expansion :=
  substituteTags (substitutePlaceholder default state) text

/-! ## Events -/

/-- What marks an event. -/
def eventMark : List Char := "event:".toList

/-- The attribute that names an event. -/
def eventAttribute (name : List Char) : List Char := "data-event=\"".toList ++ name ++ ['"']

/-- Writes every event as an attribute. A mark without a name stays. -/
def bindEvents (text : List Char) : List Char :=
  match _hs : splitOnce? eventMark text with
  | none => text
  | some (before, behind) =>
    let name := behind.takeWhile isWordChar
    before ++ (if name.isEmpty then eventMark else eventAttribute name) ++
      bindEvents (behind.dropWhile isWordChar)
termination_by text.length
decreasing_by
  have := length_of_splitOnce? _hs
  have := length_dropWhile_le isWordChar behind
  simp [eventMark] at *
  omega

end Template

end LiveMarkup
