import LiveMarkup.Text.Search

/-!
# Tags of a template

A tag is a text between `{{` and the next `}}`, without a line break. `rewriteTags` goes through a
template, asks for each tag that it meets what stands in place of it, and leaves the tags without an
answer and all other text as they are. What it is asked may have effects.

A template is a sequence of literal runs and tags (`segments`) whose texts make up the template
(`flatMap_segments`). Rewriting its tags is rewriting one part after the other
(`rewriteTags_eq_mapM_segments`).
-/

namespace LiveMarkup

namespace Template

/-- What opens a tag. -/
def openBraces : List Char := ['\x7b', '\x7b']

/-- What closes a tag. -/
def closeBraces : List Char := ['\x7d', '\x7d']

/-- The text of a tag with its braces. -/
def inBraces (tag : List Char) : List Char := openBraces ++ tag ++ closeBraces

/-- A part of a template. -/
inductive Segment
  | literal (run : List Char)
  | tag (inner : List Char)
  deriving DecidableEq, Repr

/-- The text of a part. -/
def Segment.text : Segment → List Char
  | literal run => run
  | tag inner => inBraces inner

/-- The tag that begins behind `{{`, and the text behind it. -/
def splitTag? (afterOpen : List Char) : Option (List Char × List Char) :=
  match splitOnce? closeBraces afterOpen with
  | some (tag, rest) => if tag.contains '\n' then none else some (tag, rest)
  | none => none

theorem eq_append_of_splitTag? {afterOpen tag rest : List Char}
    (h : splitTag? afterOpen = some (tag, rest)) : afterOpen = tag ++ closeBraces ++ rest := by
  simp only [splitTag?] at h
  split at h
  · next hs =>
    split at h
    · cases h
    · cases h
      exact eq_append_of_splitOnce? hs
  · cases h

/-- Rewrites the tags of a text, behind what is written already. A tag that `f` has no answer for
stays. -/
def rewriteTags {m : Type → Type} [Monad m] (f : List Char → m (Option (List Char)))
    (written text : List Char) : m (List Char) :=
  match _hs : splitOnce? openBraces text with
  | none => pure (written ++ text)
  | some (before, afterOpen) =>
    match _ht : splitTag? afterOpen with
    | some (tag, rest) => do
      let replacement? ← f tag
      rewriteTags f (written ++ before ++ replacement?.getD (inBraces tag)) rest
    | none => rewriteTags f (written ++ before ++ openBraces) afterOpen
termination_by text.length
decreasing_by
  all_goals have := length_of_splitOnce? _hs
  · rw [eq_append_of_splitTag? _ht] at this
    simp only [List.length_append, openBraces, List.length_cons] at this
    omega
  · simp only [openBraces, List.length_cons] at this
    omega

/-- The parts of a template in order. -/
def segments (text : List Char) : List Segment :=
  match _hs : splitOnce? openBraces text with
  | none => [.literal text]
  | some (before, afterOpen) =>
    match _ht : splitTag? afterOpen with
    | some (tag, rest) => .literal before :: .tag tag :: segments rest
    | none => .literal (before ++ openBraces) :: segments afterOpen
termination_by text.length
decreasing_by
  all_goals have := length_of_splitOnce? _hs
  · rw [eq_append_of_splitTag? _ht] at this
    simp only [List.length_append, openBraces, List.length_cons] at this
    omega
  · simp only [openBraces, List.length_cons] at this
    omega

theorem flatMap_segments (text : List Char) : (segments text).flatMap Segment.text = text := by
  fun_induction segments text with
  | case1 text h => simp [Segment.text]
  | case2 text before afterOpen h tag rest h' ih =>
    rw [eq_append_of_splitOnce? h, eq_append_of_splitTag? h']
    simp [Segment.text, inBraces, ih]
  | case3 text before afterOpen h h' ih =>
    rw [eq_append_of_splitOnce? h]
    simp [Segment.text, ih]

section

variable {m : Type → Type} [Monad m] (f : List Char → m (Option (List Char)))

theorem rewriteTags_eq (written text : List Char) :
    rewriteTags f written text =
      match splitOnce? openBraces text with
      | none => pure (written ++ text)
      | some (before, afterOpen) =>
        match splitTag? afterOpen with
        | some (tag, rest) => do
          let replacement? ← f tag
          rewriteTags f (written ++ before ++ replacement?.getD (inBraces tag)) rest
        | none => rewriteTags f (written ++ before ++ openBraces) afterOpen := by
  rw [rewriteTags]
  split
  · next hs => rw [hs]
  · next hs =>
    rw [hs]
    split
    · next ht => simp only [ht]
    · next ht => simp only [ht]

/-- What stands in place of a part. -/
def Segment.rewrite : Segment → m (List Char)
  | literal run => pure run
  | tag inner => return (← f inner).getD (inBraces inner)

/-- Rewriting the tags of a text is rewriting its parts one after the other. -/
theorem rewriteTags_eq_mapM_segments [LawfulMonad m] (written text : List Char) :
    rewriteTags f written text =
      (written ++ ·.flatten) <$> (segments text).mapM (Segment.rewrite f) := by
  fun_induction segments text generalizing written with
  | case1 text hs =>
    rw [rewriteTags_eq, hs]
    simp [Segment.rewrite]
  | case2 text before afterOpen hs tag rest ht ih =>
    rw [rewriteTags_eq, hs]
    simp [ht, ih, Segment.rewrite]
  | case3 text before afterOpen hs ht ih =>
    rw [rewriteTags_eq, hs]
    simp [ht, ih, Segment.rewrite]

end

end Template

end LiveMarkup
