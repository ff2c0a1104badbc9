import LiveMarkup.Template.Tag
import LiveMarkup.Text.Blank
import LiveMarkup.Text.Reading

/-!
# Blocks of a template

A block begins with a marker `{{#…}}` and ends with a marker `{{/…}}`. Here the text behind the
first characters of a block is split into its parts and what follows the block.

* `readConditional?` splits `{{#if c}}…{{elseif d}}…{{else}}…{{/if}}` into its branches. Blocks
  of the same kind inside a branch are passed over.
* `readLoop?` splits `{{#key}}…{{/key}}`, up to the first end marker with that key.
* `readDirective?` splits `{{#name arguments}}…{{/name}}` of a given name.

What is split off is shorter than the text (`within_of_readConditional?`, `length_of_readLoop?`,
`length_of_readDirective?`).
-/

namespace LiveMarkup

namespace Template

/-- A letter, digit or underscore of ASCII. -/
def isWordChar (c : Char) : Bool := c.isAlphanum || c == '_'

/-- The text behind a keyword that a blank follows. The blank belongs to that text. -/
def afterKeyword? (keyword text : List Char) : Option (List Char) :=
  match stripStart? keyword text with
  | some (c :: rest) => if isBlank c then some (c :: rest) else none
  | _ => none

theorem length_of_afterKeyword? {keyword text rest : List Char}
    (h : afterKeyword? keyword text = some rest) :
    rest.length + keyword.length = text.length := by
  simp only [afterKeyword?] at h
  split at h
  · next hs =>
    split at h
    · cases h
      exact length_of_stripStart? hs
    · cases h
  · cases h

/-- The first of two texts that is there. -/
def firstOf? (a b : Option (List Char)) : Option (List Char) :=
  match a with
  | some t => some t
  | none => b

/-! ## Conditionals -/

/-- A branch of a conditional. The branch without a condition is the last resort. -/
structure Branch where
  condition? : Option (List Char)
  body : List Char
  deriving DecidableEq, Repr

/-- The branches of a conditional in order, and the text behind it. -/
structure Conditional where
  branches : List Branch
  rest : List Char
  deriving DecidableEq, Repr

/-- The conditional with a branch in front. -/
def Conditional.cons (b : Branch) (c : Conditional) : Conditional :=
  { c with branches := b :: c.branches }

/-- The condition and the text behind `elseif`. -/
def splitElseif? (afterOpen : List Char) : Option (List Char) :=
  firstOf? (afterKeyword? "elseif".toList afterOpen) (afterKeyword? "#elseif".toList afterOpen)

/-- The text behind `else}}`. -/
def splitElse? (afterOpen : List Char) : Option (List Char) :=
  firstOf? (stripStart? "else\x7d\x7d".toList afterOpen)
    (stripStart? "#else\x7d\x7d".toList afterOpen)

/-- What the text behind `{{` says in a conditional. -/
inductive BranchMarker
  /-- A conditional inside a branch begins. -/
  | opening (rest : List Char)
  | closing (rest : List Char)
  | elseif (rest : List Char)
  | otherwise (rest : List Char)
  | other
  deriving DecidableEq, Repr

/-- Reads the text behind `{{`. -/
def BranchMarker.read (afterOpen : List Char) : BranchMarker :=
  match afterKeyword? "#if".toList afterOpen with
  | some rest => opening rest
  | none =>
    match stripStart? "/if\x7d\x7d".toList afterOpen with
    | some rest => closing rest
    | none =>
      match splitElseif? afterOpen with
      | some rest => elseif rest
      | none =>
        match splitElse? afterOpen with
        | some rest => otherwise rest
        | none => other

/-- Whether the rest of a marker is shorter than a text. -/
def BranchMarker.Below (text : List Char) : BranchMarker → Prop
  | opening rest => rest.length < text.length
  | closing rest => rest.length < text.length
  | elseif rest => rest.length < text.length
  | otherwise rest => rest.length < text.length
  | other => True

theorem length_of_firstOf? {a b : Option (List Char)} {t : List Char} {n : Nat}
    (h : firstOf? a b = some t) (ha : ∀ s, a = some s → s.length < n)
    (hb : ∀ s, b = some s → s.length < n) : t.length < n := by
  cases a with
  | some s => cases h; exact ha _ rfl
  | none => exact hb _ h

/-- What stands behind a branch marker is shorter than the text that begins with the marker. -/
theorem BranchMarker.below_read (text : List Char) : (read text).Below text := by
  have keyword {word : List Char} (hw : 0 < word.length) :
      ∀ s, afterKeyword? word text = some s → s.length < text.length := fun s h => by
    have := length_of_afterKeyword? h
    omega
  have start {word : List Char} (hw : 0 < word.length) :
      ∀ s, stripStart? word text = some s → s.length < text.length := fun s h => by
    have := length_of_stripStart? h
    omega
  rw [read]
  split
  · next h => exact keyword (by decide) _ h
  · split
    · next h => exact start (by decide) _ h
    · split
      · next h => exact length_of_firstOf? h (keyword (by decide)) (keyword (by decide))
      · split
        · next h => exact length_of_firstOf? h (start (by decide)) (start (by decide))
        · trivial

/-- The branches from within one of them, whose body so far is `seen`. `depth` conditionals inside
it are open; behind an else, no further branch begins. -/
def splitBranches? (depth : Nat) (elseSeen : Bool) (condition? : Option (List Char))
    (seen text : List Char) : Option Conditional :=
  match _hs : splitOnce? openBraces text with
  | none => none
  | some (before, afterOpen) =>
    match _hm : BranchMarker.read afterOpen with
    | .opening rest =>
      splitBranches? (depth + 1) elseSeen condition?
        (seen ++ before ++ "\x7b\x7b#if".toList) rest
    | .closing rest =>
      match depth with
      | 0 => some ⟨[⟨condition?, seen ++ before⟩], rest⟩
      | depth + 1 =>
        splitBranches? depth elseSeen condition?
          (seen ++ before ++ "\x7b\x7b/if\x7d\x7d".toList) rest
    | .elseif rest =>
      if depth = 0 ∧ !elseSeen then
        match _hc : splitOnce? closeBraces rest with
        | none => none
        | some (next, body) =>
          (splitBranches? 0 false (some next) [] body).map
            (Conditional.cons ⟨condition?, seen ++ before⟩)
      else splitBranches? depth elseSeen condition? (seen ++ before ++ openBraces) afterOpen
    | .otherwise rest =>
      if depth = 0 ∧ !elseSeen then
        (splitBranches? 0 true none [] rest).map (Conditional.cons ⟨condition?, seen ++ before⟩)
      else splitBranches? depth elseSeen condition? (seen ++ before ++ openBraces) afterOpen
    | .other => splitBranches? depth elseSeen condition? (seen ++ before ++ openBraces) afterOpen
termination_by text.length
decreasing_by
  all_goals have short := length_of_splitOnce? _hs
  all_goals simp only [openBraces, List.length_cons] at short
  all_goals have below := BranchMarker.below_read afterOpen
  all_goals simp only [_hm, BranchMarker.Below] at below
  · omega
  · omega
  · have := length_of_splitOnce? _hc
    omega
  all_goals omega

/-- The parts of a conditional behind `{{#if`. -/
def readConditional? (afterOpen : List Char) : Option Conditional :=
  match afterOpen with
  | [] => none
  | c :: rest =>
    if isBlank c then
      match splitOnce? closeBraces rest with
      | none => none
      | some (condition, body) => splitBranches? 0 false (some condition) [] body
    else none

theorem BranchMarker.length_of_opening {text rest : List Char} (h : read text = opening rest) :
    rest.length + 3 = text.length := by
  rw [read] at h
  split at h
  · next hk =>
    cases h
    exact length_of_afterKeyword? hk
  · repeat' split at h
    all_goals cases h

theorem BranchMarker.length_of_closing {text rest : List Char} (h : read text = closing rest) :
    rest.length + 5 = text.length := by
  rw [read] at h
  split at h
  · cases h
  · split at h
    · next hs =>
      cases h
      exact length_of_stripStart? hs
    · repeat' split at h
      all_goals cases h

/-- The rest of a conditional is shorter than `text`, and its bodies are shorter than `bound`. -/
def Conditional.Within (bound : Nat) (text : List Char) (c : Conditional) : Prop :=
  c.rest.length < text.length ∧ ∀ b ∈ c.branches, b.body.length < bound

theorem Conditional.Within.mono {m n : Nat} {s t : List Char} {c : Conditional}
    (h : c.Within m s) (hmn : m ≤ n) (hst : s.length ≤ t.length) : c.Within n t :=
  ⟨by have := h.1; omega, fun b hb => by have := h.2 b hb; omega⟩

/-- A branch that is shorter than the bound may be put before a conditional within it. -/
theorem Conditional.Within.cons {m : Nat} {t : List Char} {c : Conditional} {b : Branch}
    (h : c.Within m t) (hb : b.body.length < m) : (c.cons b).Within m t :=
  ⟨h.1, fun d hd => by
    rcases List.mem_cons.1 hd with rfl | hd
    · exact hb
    · exact h.2 d hd⟩

theorem within_of_splitBranches? {depth : Nat} {elseSeen : Bool}
    {condition? : Option (List Char)} {seen text : List Char} {c : Conditional}
    (h : splitBranches? depth elseSeen condition? seen text = some c) :
    c.Within (seen.length + text.length) text := by
  fun_induction splitBranches? depth elseSeen condition? seen text generalizing c
  case case1 => cases h
  case case2 hs _ hm ih =>
    have hs := length_of_splitOnce? hs
    have hm := BranchMarker.length_of_opening hm
    exact (ih h).mono (by simp [openBraces] at *; omega) (by omega)
  case case3 hs _ hm =>
    have hs := length_of_splitOnce? hs
    have hm := BranchMarker.length_of_closing hm
    cases h
    refine ⟨by simp only; omega, fun b hb => ?_⟩
    cases List.mem_singleton.1 hb
    simp [openBraces] at *
    omega
  case case4 hs _ hm _ ih =>
    have hs := length_of_splitOnce? hs
    have hm := BranchMarker.length_of_closing hm
    exact (ih h).mono (by simp [openBraces] at *; omega) (by omega)
  case case5 => cases h
  case case6 hs _ hm _ _ _ hc ih =>
    have hs := length_of_splitOnce? hs
    have hc := length_of_splitOnce? hc
    have below := hm ▸ BranchMarker.below_read _
    simp only [BranchMarker.Below] at below
    obtain ⟨d, hd, rfl⟩ := Option.map_eq_some_iff.1 h
    exact ((ih hd).mono (by simp; omega) (by omega)).cons (by simp [openBraces] at *; omega)
  case case7 hs _ _ _ ih =>
    have hs := length_of_splitOnce? hs
    exact (ih h).mono (by simp [openBraces] at *; omega) (by omega)
  case case8 hs _ hm _ ih =>
    have hs := length_of_splitOnce? hs
    have below := hm ▸ BranchMarker.below_read _
    simp only [BranchMarker.Below] at below
    obtain ⟨d, hd, rfl⟩ := Option.map_eq_some_iff.1 h
    exact ((ih hd).mono (by simp; omega) (by omega)).cons (by simp [openBraces] at *; omega)
  case case9 hs _ _ _ ih =>
    have hs := length_of_splitOnce? hs
    exact (ih h).mono (by simp [openBraces] at *; omega) (by omega)
  case case10 hs _ ih =>
    have hs := length_of_splitOnce? hs
    exact (ih h).mono (by simp [openBraces] at *; omega) (by omega)

/-- All that is cut out of a conditional is shorter than the text behind its opening braces, so the
passes that go on with it end. -/
theorem within_of_readConditional? {afterOpen : List Char} {c : Conditional}
    (h : readConditional? afterOpen = some c) : c.Within afterOpen.length afterOpen := by
  simp only [readConditional?] at h
  split at h
  · cases h
  · split at h
    · split at h
      · cases h
      · next hs =>
        have := length_of_splitOnce? hs
        exact (within_of_splitBranches? h).mono (by simp; omega) (by simp; omega)
    · cases h

/-! ## Loops and directives -/

/-- A loop's key, its body and the text behind it, from the text behind `{{#`. -/
def readLoop? (afterOpen : List Char) : Option (List Char × List Char × List Char) :=
  let key := afterOpen.takeWhile isWordChar
  if key.isEmpty then none
  else
    match stripStart? closeBraces (afterOpen.dropWhile isWordChar) with
    | none => none
    | some body =>
      match splitOnce? (inBraces ('/' :: key)) body with
      | none => none
      | some (content, rest) => some (key, content, rest)

/-- The end marker of a directive. -/
def directiveEnd (name : List Char) : List Char := inBraces ('/' :: name)

/-- A directive's arguments, its content and the text behind it, from the text behind `{{#name`. -/
def readDirective? (name afterOpen : List Char) :
    Option (List Char × List Char × List Char) :=
  match afterOpen with
  | [] => none
  | c :: rest =>
    if isBlank c then
      match splitTag? rest with
      | none => none
      | some (arguments, body) =>
        match splitOnce? (directiveEnd name) body with
        | none => none
        | some (content, rest) => some (trim arguments, content, rest)
    else none

/-- The text behind a loop is shorter than the text behind its opening braces. -/
theorem length_of_readLoop? {afterOpen key content rest : List Char}
    (h : readLoop? afterOpen = some (key, content, rest)) : rest.length < afterOpen.length := by
  simp only [readLoop?] at h
  split at h
  · cases h
  · split at h
    · cases h
    · next hb =>
      split at h
      · cases h
      · next hs =>
        cases h
        have := length_of_splitOnce? hs
        have := length_of_stripStart? hb
        have := length_dropWhile_le isWordChar afterOpen
        simp [inBraces, openBraces, closeBraces] at *
        omega

theorem length_of_readDirective? {name afterOpen arguments content rest : List Char}
    (h : readDirective? name afterOpen = some (arguments, content, rest)) :
    rest.length < afterOpen.length := by
  simp only [readDirective?] at h
  split at h
  · cases h
  · split at h
    · split at h
      · cases h
      · next ht =>
        split at h
        · cases h
        · next hs =>
          cases h
          have := length_of_splitOnce? hs
          rw [eq_append_of_splitTag? ht]
          simp [directiveEnd, inBraces, openBraces, closeBraces] at *
          omega
    · cases h

end Template

end LiveMarkup
