import LiveMarkup.Proofs.Condition.Deriving

/-!
# Where faults are

A fault is reported with a column. Every reader leaves an end of its text, or stops at a fault whose
place is in its text (`Condition.Follows`, `Condition.follows_readLevel`). The text from the column
on begins with what the fault tells of, with one exception (`Expr.column_names_iff`): the fault of a
number that is none is behind the number, and not before it. That the number also follows there is
possible, but then it stands twice.
-/

namespace LiveMarkup

open Condition

/-- A text begins with what a fault tells of: the unexpected text, a string that does not end, a
number, all that is left over, or nothing. -/
def ParseFault.Names (fault : ParseFault) (rest : List Char) : Prop :=
  match fault with
  | unexpectedToken _ found => ∃ shown, shown ≠ [] ∧ found = quoted shown ∧ shown <+: rest
  | unexpectedEnd _ => rest = []
  | unterminatedString => ∃ quote body, (quote = '\'' ∨ quote = '"') ∧ rest = quote :: body ∧
      ∀ cs behind, ¬ StringBody quote body cs behind
  | invalidNumber literal => literal ≠ "" ∧ literal.toList <+: rest
  | trailingInput remaining => remaining ≠ "" ∧ remaining.toList = rest

namespace Condition

variable {s t rest : List Char} {f : Fault} {n : ℕ}

/-- The place of a fault is in a text. What the fault tells of is there, except for a number: it is
right before that place. -/
def Fault.MarkedIn (f : Fault) (text : List Char) : Prop :=
  f.rest <:+ text ∧
    match f.fault with
    | .invalidNumber literal => literal ≠ "" ∧ literal.toList ++ f.rest <:+ text
    | fault => fault.Names f.rest

theorem Fault.MarkedIn.mono (h : f.MarkedIn s) (hs : s <:+ t) : f.MarkedIn t := by
  obtain ⟨fault, place⟩ := f
  obtain ⟨hplace, hnames⟩ := h
  refine ⟨hplace.trans hs, ?_⟩
  cases fault with
  | invalidNumber literal => exact ⟨hnames.1, hnames.2.trans hs⟩
  | _ => exact hnames

/-- What a reader answers on a text: it leaves an end of the text, or finds a fault in it. -/
def Follows (text : List Char) : Except Fault (Expr × List Char) → Prop
  | .ok (_, rest) => rest <:+ text
  | .error f => f.MarkedIn text

theorem Follows.mono {r : Except Fault (Expr × List Char)} (h : Follows s r) (hs : s <:+ t) :
    Follows t r := by
  cases r with
  | ok answer => exact List.IsSuffix.trans h hs
  | error f => exact Fault.MarkedIn.mono h hs

/-! ## Atoms -/

/-- A string is read to an end of its text, or it does not end. -/
theorem plain_readString_cases (quote : Char) (start seen text : List Char) :
    (readString quote start seen text).plain = .error ⟨.unterminatedString, start⟩ ∨
      ∃ e rest, (readString quote start seen text).plain = .ok (e, rest) ∧ rest <:+ text := by
  induction seen, text using readString.induct quote with
  | case1 seen => exact .inl (by simp [readString, Reading.plain])
  | case2 seen more =>
    refine .inr ⟨.literal (.string (String.ofList seen.reverse)), more, ?_,
      List.suffix_cons quote more⟩
    rw [readString.eq_def]
    simp [Reading.tail, Reading.plain, Shorter.tail]
  | case3 seen hne => exact .inl (by simp [readString, hne, Reading.plain])
  | case4 seen d more hne ih =>
    rw [readString, if_neg hne, if_pos rfl, Reading.plain_cons, Reading.plain_cons]
    refine ih.imp_right ?_
    rintro ⟨e, rest, hread, hrest⟩
    exact ⟨e, rest, hread, hrest.trans ((List.suffix_cons d more).trans (List.suffix_cons _ _))⟩
  | case5 seen c more hne hescape ih =>
    rw [readString.eq_def]
    simp only [if_neg hne, if_neg hescape, Reading.plain_cons]
    refine ih.imp_right ?_
    rintro ⟨e, rest, hread, hrest⟩
    exact ⟨e, rest, hread, hrest.trans (List.suffix_cons c more)⟩

theorem follows_readString {quote : Char} (hquote : quote = '\'' ∨ quote = '"')
    (body : List Char) :
    Follows (quote :: body) (readString quote (quote :: body) [] body).plain := by
  have hescape : quote ≠ '\\' := by rcases hquote with rfl | rfl <;> decide
  rcases plain_readString_cases quote (quote :: body) [] body with hfault | ⟨e, rest, hread, hrest⟩
  · rw [hfault]
    refine ⟨List.suffix_rfl, quote, body, hquote, rfl, fun cs behind hcs => ?_⟩
    have hread := (plain_readString_iff hescape (quote :: body) [] body).2 ⟨cs, hcs, rfl⟩
    rw [hfault] at hread
    cases hread
  · rw [hread]
    exact hrest.trans (List.suffix_cons quote body)

theorem follows_readNumber (c : Char) (text : List Char) :
    Follows (c :: text) (readNumber c text).plain := by
  have hrest : text.dropWhile isNumberChar <:+ c :: text :=
    (List.dropWhile_suffix _).trans (List.suffix_cons c text)
  rw [readNumber]
  split
  · exact hrest
  · refine ⟨hrest, ?_, ?_⟩
    · intro hempty
      have := congrArg String.toList hempty
      simp at this
    · have hwhole : (c :: text.takeWhile isNumberChar) ++ text.dropWhile isNumberChar = c :: text :=
        congrArg (c :: ·) List.takeWhile_append_dropWhile
      rw [String.toList_ofList]
      exact hwhole ▸ List.suffix_rfl

theorem follows_readAtom (c : Char) (text : List Char) :
    Follows (c :: text) (readAtom c text).plain := by
  rw [readAtom]
  split
  · next hquote =>
    rw [Reading.plain_cons]
    exact follows_readString hquote text
  · split
    · exact follows_readNumber c text
    · split
      · exact (List.dropWhile_suffix _).trans (List.suffix_cons c text)
      · exact ⟨List.suffix_rfl, [c], by simp, rfl, by simp⟩

theorem follows_readClosing (e : Expr) (text : List Char) :
    Follows text (readClosing e text).plain := by
  have hrest : text.dropWhile isBlank <:+ text := List.dropWhile_suffix _
  rw [readClosing]
  split
  · exact ⟨List.nil_suffix, rfl⟩
  · next c behind h =>
    rw [dropWhile_of_afterRun? h] at hrest
    split
    · exact (List.suffix_cons c behind.1).trans hrest
    · exact ⟨hrest, _, by simp [shownLength], rfl, List.take_prefix _ _⟩

/-! ## Levels -/

/-- What is read behind a part of a text is read in the text. -/
theorem Follows.bind {r : Except Fault (Expr × List Char)}
    {g : Expr → List Char → Except Fault (Expr × List Char)} : Follows t r →
    (∀ e rest, r = .ok (e, rest) → Follows rest (g e rest)) →
    Follows t (match r with
      | .ok (e, rest) => g e rest
      | .error f => .error f) := by
  intro h hg
  cases r with
  | ok answer => exact (hg answer.1 answer.2 rfl).mono h
  | error f => exact h

/-- What is read up to a length as an operand of a level follows the text. -/
def OperandsFollow (level : Level) (n : ℕ) : Prop :=
  ∀ text : List Char, text.length ≤ n → Follows text (readOperand level text).plain

/-- What is read up to a length as a level follows the text. -/
def LevelFollows (level : Level) (n : ℕ) : Prop :=
  ∀ text : List Char, text.length ≤ n → Follows text (readLevel level text).plain

theorem OperandsFollow.chain {level : Level} (h : OperandsFollow level n) (left : Expr)
    {text : List Char} (hlength : text.length ≤ n) :
    Follows text (readChain level left text).plain := by
  induction hm : text.length using Nat.strong_induction_on generalizing left text with
  | _ m ih =>
  subst hm
  have hdrop : text.dropWhile isBlank <:+ text := List.dropWhile_suffix _
  rw [plain_readChain]
  cases hop : level.operatorAt? (text.dropWhile isBlank) with
  | none => exact hdrop
  | some found =>
    obtain ⟨op, behind⟩ := found
    obtain ⟨rfl, hbehind⟩ := Level.eq_of_operatorAt? hop
    rw [hbehind] at hdrop
    have hshort : behind.length < text.length := by
      have hpos := op.spelling_length_pos
      have hle := hdrop.length_le
      rw [List.length_append] at hle
      omega
    refine Follows.mono ?_ ((List.suffix_append _ _).trans hdrop)
    refine (h behind (by omega)).bind fun right t hright => ?_
    have := Reading.length_of_plain hright
    exact ih t.length (by omega) _ (by omega) rfl

theorem OperandsFollow.level {level : Level} (h : OperandsFollow level n) :
    LevelFollows level n := by
  intro text hlength
  rw [plain_readLevel]
  refine (h text hlength).bind fun left t hleft => ?_
  have := Reading.length_of_plain hleft
  exact h.chain left (by omega)

/-- All levels follow the text if the operands behind their negations do. -/
theorem OperandsFollow.all (h : OperandsFollow .comparison n) (level : Level) :
    LevelFollows level n := by
  have hconjunction : OperandsFollow .conjunction n := by
    intro text hlength
    rw [readOperand_eq]
    exact h.level text hlength
  have hdisjunction : OperandsFollow .disjunction n := by
    intro text hlength
    rw [readOperand_eq]
    exact hconjunction.level text hlength
  cases level with
  | comparison => exact h.level
  | conjunction => exact hconjunction.level
  | disjunction => exact hdisjunction.level

theorem Follows.map_not {r : Reading Fault Expr s} (h : Follows t r.plain) :
    Follows t (r.map Expr.not).plain := by
  rcases r with f | ⟨e, rest⟩
  · exact h
  · exact h

/-- Behind negations there are only shorter conditions. -/
theorem follows_readUnary (text : List Char) : Follows text (readUnary text).plain := by
  induction hn : text.length using Nat.strong_induction_on generalizing text with
  | _ n ih =>
  subst hn
  have hdrop : text.dropWhile isBlank <:+ text := List.dropWhile_suffix _
  rw [plain_readUnary]
  cases hd : text.dropWhile isBlank with
  | nil => exact ⟨List.nil_suffix, rfl⟩
  | cons c more =>
    rw [hd] at hdrop
    have hshort : more.length < text.length := hdrop.length_le
    refine Follows.mono ?_ hdrop
    rw [readBehindBlanks]
    split
    · exact (ih _ hshort more rfl).map_not.mono (List.suffix_cons c more)
    · split
      · have hunary : OperandsFollow .comparison more.length := by
          intro t hlength
          rw [readOperand_eq]
          exact ih t.length (by omega) t rfl
        rw [Reading.plain_andThen (readLevel .disjunction more) readClosing]
        refine Follows.mono ?_ (List.suffix_cons c more)
        have hinner := hunary.all .disjunction more le_rfl
        cases hr : (readLevel .disjunction more).plain with
        | ok answer =>
          rw [hr] at hinner
          exact (follows_readClosing answer.1 answer.2).mono hinner
        | error f =>
          rw [hr] at hinner
          exact hinner
      · exact follows_readAtom c more

theorem follows_readLevel (level : Level) (text : List Char) :
    Follows text (readLevel level text).plain := by
  have hunary : OperandsFollow .comparison text.length := by
    intro t _
    rw [readOperand_eq]
    exact follows_readUnary t
  exact hunary.all level text le_rfl

/-- A fault in the first operand is the fault of every level. -/
theorem plain_readLevel_of_readUnary (level : Level) (h : (readUnary t).plain = .error f) :
    (readLevel level t).plain = .error f := by
  have hcomparison : (readLevel .comparison t).plain = .error f := by
    rw [plain_readLevel, readOperand_eq]
    simp only [Level.tighter?, h]
  have hconjunction : (readLevel .conjunction t).plain = .error f := by
    rw [plain_readLevel, readOperand_eq]
    simp only [Level.tighter?, hcomparison]
  cases level with
  | comparison => exact hcomparison
  | conjunction => exact hconjunction
  | disjunction =>
    rw [plain_readLevel, readOperand_eq]
    simp only [Level.tighter?, hconjunction]

/-! ## Columns -/

theorem drop_column (h : rest <:+ t) : t.drop (column t rest - 1) = rest := by
  rw [column, Nat.add_sub_cancel]
  exact (List.suffix_iff_eq_drop.1 h).symm

theorem parse_eq_error (h : (readLevel .disjunction t).plain = .error f) :
    Expr.parse t = .error (f.toError t) := by
  cases hread : readLevel .disjunction t with
  | error f' =>
    rw [hread] at h
    cases h
    rw [Expr.parse, hread]
  | ok answer =>
    rw [hread] at h
    cases h

/-- A condition that is not read has a fault that is marked in its text. -/
theorem exists_of_parse_eq_error {error : ParseError} (h : Expr.parse t = .error error) :
    ∃ f : Fault, f.MarkedIn t ∧ error = f.toError t := by
  have hfollows : Follows t (readLevel .disjunction t).plain := follows_readLevel .disjunction t
  rw [Expr.parse] at h
  cases hread : readLevel .disjunction t with
  | error f =>
    rw [hread] at h hfollows
    cases h
    exact ⟨f, hfollows, rfl⟩
  | ok answer =>
    obtain ⟨e, rest⟩ := answer
    rw [hread] at h hfollows
    simp only at h
    split at h
    · cases h
    · next left hne =>
      cases h
      have hleft : trimStart rest.1 <:+ t := (List.dropWhile_suffix _).trans hfollows
      refine ⟨⟨.trailingInput (String.ofList (trimStart rest.1)), trimStart rest.1⟩,
        ⟨hleft, fun hempty => hne ?_, String.toList_ofList⟩, rfl⟩
      have := congrArg String.toList hempty
      rwa [String.toList_ofList] at this

end Condition

/-- The column of a fault is in the text or right behind it, and the text from there on begins with
what the fault tells of, unless this is a number. The number is right before the column; that the
text from the column on begins with it, too, is so exactly if it stands there twice. -/
theorem Expr.column_names_iff {text : List Char} {error : ParseError}
    (h : Expr.parse text = .error error) :
    1 ≤ error.column ∧ error.column ≤ text.length + 1 ∧
      (error.fault.Names (text.drop (error.column - 1)) ↔
        ∀ literal, error.fault = .invalidNumber literal →
          literal.toList ++ literal.toList <+: text.drop (error.column - 1 - literal.length)) ∧
      ∀ literal, error.fault = .invalidNumber literal →
        literal ≠ "" ∧ literal.length < error.column ∧
          literal.toList <+: text.drop (error.column - 1 - literal.length) := by
  obtain ⟨⟨fault, rest⟩, ⟨hrest, hnames⟩, rfl⟩ := exists_of_parse_eq_error h
  have hdrop : text.drop (column text rest - 1) = rest := drop_column hrest
  refine ⟨Nat.le_add_left _ _, Nat.succ_le_succ (Nat.sub_le _ _), ?_⟩
  simp only [Fault.toError, hdrop]
  by_cases hnumber : ∃ literal, fault = .invalidNumber literal
  · obtain ⟨literal, rfl⟩ := hnumber
    obtain ⟨hne, hliteral : literal.toList ++ rest <:+ text⟩ := hnames
    have hbefore : text.drop (column text rest - 1 - literal.length) = literal.toList ++ rest := by
      rw [← drop_column hliteral, column, column, List.length_append, String.length_toList]
      congr 1
      omega
    have hlength := hliteral.length_le
    rw [List.length_append, String.length_toList] at hlength
    refine ⟨⟨?_, fun hall => ?_⟩, ?_⟩
    · rintro ⟨-, hprefix⟩ _ ⟨⟩
      rw [hbefore]
      exact (List.prefix_append_right_inj _).2 hprefix
    · have htwice := hall literal rfl
      rw [hbefore] at htwice
      exact ⟨hne, (List.prefix_append_right_inj _).1 htwice⟩
    · rintro _ ⟨⟩
      rw [hbefore]
      refine ⟨hne, ?_, List.prefix_append _ _⟩
      rw [column]
      omega
  · have hother : ∀ literal, fault ≠ .invalidNumber literal := fun literal he =>
      hnumber ⟨literal, he⟩
    refine ⟨⟨fun _ literal he => absurd he (hother literal), fun _ => ?_⟩,
      fun literal he => absurd he (hother literal)⟩
    cases fault with
    | invalidNumber literal => exact absurd rfl (hother literal)
    | _ => exact hnames

/-- A string that does not end is where the column says, also behind a character of two bytes. -/
theorem Expr.column_names_of_string :
    Expr.parse "\"é\" == 'bob".toList = .error ⟨8, .unterminatedString⟩ ∧
      ParseFault.unterminatedString.Names ("\"é\" == 'bob".toList.drop 7) := by
  have h : Expr.parse "\"é\" == 'bob".toList = .error ⟨8, .unterminatedString⟩ := by
    decide +kernel
  obtain ⟨-, -, hnames, -⟩ := Expr.column_names_iff h
  exact ⟨h, hnames.2 nofun⟩

/-- Of a number that is none, the column is right behind it. -/
theorem Expr.parse_eq_invalidNumber {c : Char} {digits : List Char}
    (hc : c = '-' ∨ isNumberChar c = true) (hdigits : ∀ d ∈ digits, isNumberChar d = true)
    (h : Double.ofText? (c :: digits) = none) :
    Expr.parse (c :: digits) =
      .error ⟨digits.length + 2, .invalidNumber (String.ofList (c :: digits))⟩ := by
  have hstarts : StartsAtom c := .inr (.inl hc)
  have hquote : ¬ (c = '\'' ∨ c = '"') := by
    rintro (rfl | rfl)
    · exact absurd hc (by decide)
    · exact absurd hc (by decide)
  have hrun : digits.takeWhile isNumberChar = digits ∧ digits.dropWhile isNumberChar = [] := by
    rw [← List.append_nil digits, List.takeWhile_append_of_pos hdigits,
      List.dropWhile_append_of_pos hdigits]
    simp
  have hread : (readUnary (c :: digits)).plain =
      .error ⟨.invalidNumber (String.ofList (c :: digits)), []⟩ := by
    rw [plain_readUnary, List.dropWhile_cons_of_neg (by simp [hstarts.isBlank_eq_false]),
      readBehindBlanks, if_neg fun hnot => hstarts.ne.1 hnot.1, if_neg hstarts.ne.2.1, readAtom,
      if_neg hquote, if_pos hc, readNumber]
    simp only [hrun, h]
    rfl
  rw [parse_eq_error (plain_readLevel_of_readUnary .disjunction hread)]
  rfl

/-- The text from the column on does not begin with the number. -/
theorem Expr.column_behind_number :
    let text := ['1', '.', '2', '.', '3']
    Expr.parse text = .error ⟨6, .invalidNumber "1.2.3"⟩ ∧
      ¬ (ParseFault.invalidNumber "1.2.3").Names (text.drop 5) := by
  intro text
  have hnone : Double.ofText? ['1', '.', '2', '.', '3'] = none := by decide +kernel
  have hdigits : ∀ d ∈ ['.', '2', '.', '3'], isNumberChar d = true := by simp [isNumberChar]
  refine ⟨Expr.parse_eq_invalidNumber (.inr (by decide)) hdigits hnone, ?_⟩
  rintro ⟨-, hprefix⟩
  exact absurd (List.prefix_nil.1 hprefix) (by decide)

end LiveMarkup
