import LiveMarkup.Proofs.Condition.Blanks
import Mathlib.Data.List.TakeWhile

/-!
# The grammar of conditions

What a text says as a condition, told by rules and not by a reader.

* `Atom text e rest`: the text begins with a string, a number or a word that writes `e`, and
  `rest` stands behind it. Numbers and words are runs that cannot be longer (`IsRun`).
* `Derives symbol text e rest`: the text begins with what `symbol` derives, its tree is `e`, and
  `rest` stands behind it. There is one rule for each form, and blanks may stand before every
  token. The left operand of an operator is of the operator's own level and the right one of the
  next tighter one, so that operators of one level group to the left.
* Nothing that can be derived begins with `=` (`Derives.head_ne_equals`). Therefore no operator
  can be cut short: behind `<`, `!` or `==` no operand goes on with `=`.
-/

namespace LiveMarkup

open Condition

/-! ## Operators -/

namespace Operator

/-- The level at which an operator binds. -/
def level : Operator → Level
  | or => .disjunction
  | and => .conjunction
  | compare _ => .comparison

/-- How an operator is written. -/
def spelling : Operator → List Char
  | or => ['|', '|']
  | and => ['&', '&']
  | compare .strictEq => ['=', '=', '=']
  | compare .strictNe => ['!', '=', '=']
  | compare .looseEq => ['=', '=']
  | compare .looseNe => ['!', '=']
  | compare .le => ['<', '=']
  | compare .ge => ['>', '=']
  | compare .lt => ['<']
  | compare .gt => ['>']

theorem spelling_length_pos (op : Operator) : 0 < op.spelling.length := by
  cases op with
  | compare op => cases op <;> decide
  | _ => decide

theorem dropWhile_spelling (op : Operator) (behind : List Char) :
    (op.spelling ++ behind).dropWhile isBlank = op.spelling ++ behind := by
  cases op with
  | compare op => cases op <;> rfl
  | _ => rfl

end Operator

namespace Condition

/-- The blanks of a condition are blank characters only. -/
def AllBlank (text : List Char) : Prop := ∀ c ∈ text, isBlank c = true

/-- The kinds of text that the grammar has. -/
inductive Symbol
  /-- Operands of a level joined by its operators. -/
  | level (level : Level)
  /-- An operand behind any number of negations. -/
  | unary
  /-- An operand with nothing before it. -/
  | primary

/-- What stands beside the operators of a level. -/
def Level.operand : Level → Symbol
  | disjunction => .level .conjunction
  | conjunction => .level .comparison
  | comparison => .unary

/-! ## Atoms -/

/-- The text begins with a run of characters with a property, which `rest` does not go on with. -/
structure IsRun (p : Char → Bool) (text run rest : List Char) : Prop where
  split : text = run ++ rest
  all : ∀ c ∈ run, p c = true
  maximal : ∀ c, rest.head? = some c → p c = false

/-- The text behind an opening quote goes on with the characters of a string, as they are written,
and its closing quote. -/
inductive StringBody (quote : Char) : List Char → List Char → List Char → Prop
  | close (rest : List Char) : StringBody quote (quote :: rest) [] rest
  | plain {c : Char} {text cs rest : List Char} (hquote : c ≠ quote) (hescape : c ≠ '\\')
      (more : StringBody quote text cs rest) : StringBody quote (c :: text) (c :: cs) rest
  | escaped (c : Char) {text cs rest : List Char} (more : StringBody quote text cs rest) :
      StringBody quote ('\\' :: c :: text) (unescapeChar c :: cs) rest

/-- The text begins with a string, a number or a word. -/
inductive Atom : List Char → Expr → List Char → Prop
  | string {quote : Char} {text cs rest : List Char} (hquote : quote = '\'' ∨ quote = '"')
      (body : StringBody quote text cs rest) :
      Atom (quote :: text) (.literal (.string (String.ofList cs))) rest
  | number {sign text digits rest : List Char} {x : Double} (hsign : sign = [] ∨ sign = ['-'])
      (run : IsRun isNumberChar text digits rest)
      (value : Double.ofText? (sign ++ digits) = some x) :
      Atom (sign ++ text) (.literal (.number x)) rest
  | word {text word rest : List Char} {c : Char} (run : IsRun isNameChar text (c :: word) rest)
      (hdigit : c.isDigit = false) : Atom text (ofWord (c :: word)) rest

/-! ## Conditions -/

/-- The text begins with what the symbol derives. -/
inductive Derives : Symbol → List Char → Expr → List Char → Prop
  | operand {level : Level} {text rest : List Char} {e : Expr}
      (operand : Derives level.operand text e rest) : Derives (.level level) text e rest
  | binary {op : Operator} {text blanks behind rest : List Char} {left right : Expr}
      (hleft : Derives (.level op.level) text left (blanks ++ (op.spelling ++ behind)))
      (hblanks : AllBlank blanks) (hright : Derives op.level.operand behind right rest) :
      Derives (.level op.level) text (.binary op left right) rest
  | not {blanks behind rest : List Char} {e : Expr} (hblanks : AllBlank blanks)
      (operand : Derives .unary behind e rest) :
      Derives .unary (blanks ++ '!' :: behind) (.not e) rest
  | primary {text rest : List Char} {e : Expr} (primary : Derives .primary text e rest) :
      Derives .unary text e rest
  | parens {blanks behind closing rest : List Char} {e : Expr} (hblanks : AllBlank blanks)
      (inner : Derives (.level .disjunction) behind e (closing ++ ')' :: rest))
      (hclosing : AllBlank closing) : Derives .primary (blanks ++ '(' :: behind) e rest
  | atom {blanks text rest : List Char} {e : Expr} (hblanks : AllBlank blanks)
      (atom : Atom text e rest) : Derives .primary (blanks ++ text) e rest

/-! ## Blanks and runs -/

theorem AllBlank.nil : AllBlank [] := by simp [AllBlank]

theorem allBlank_takeWhile (text : List Char) : AllBlank (text.takeWhile isBlank) :=
  fun _ hc => List.mem_takeWhile_imp hc

/-- Every text is its leading blanks and what stands behind them. -/
theorem exists_blanks (text : List Char) :
    ∃ blanks, AllBlank blanks ∧ text = blanks ++ text.dropWhile isBlank :=
  ⟨_, allBlank_takeWhile text, List.takeWhile_append_dropWhile.symm⟩

namespace AllBlank

variable {blanks text : List Char} {c : Char}

theorem dropWhile_append (h : AllBlank blanks) (text : List Char) :
    (blanks ++ text).dropWhile isBlank = text.dropWhile isBlank :=
  List.dropWhile_append_of_pos h

/-- Behind the blanks stands the first character that is not one. -/
theorem dropWhile_append_cons (h : AllBlank blanks) (hc : isBlank c = false) (text : List Char) :
    (blanks ++ c :: text).dropWhile isBlank = c :: text := by
  rw [h.dropWhile_append, List.dropWhile_cons_of_neg (by simp [hc])]

theorem iff_dropWhile_eq_nil : AllBlank text ↔ text.dropWhile isBlank = [] := by
  rw [List.dropWhile_eq_nil_iff]
  rfl

/-- What does not begin with `=` does not do so behind blanks either. -/
theorem head_append_ne_equals (h : AllBlank blanks) (htext : text.head? ≠ some '=') :
    (blanks ++ text).head? ≠ some '=' := by
  cases blanks with
  | nil => exact htext
  | cons b more =>
    rintro ⟨⟩
    exact absurd (h '=' (by simp)) (by decide)

end AllBlank

namespace IsRun

variable {p : Char → Bool} {text run rest : List Char}

/-- There is one run at the start of a text, and it is the longest. -/
theorem iff_takeWhile :
    IsRun p text run rest ↔ run = text.takeWhile p ∧ rest = text.dropWhile p := by
  constructor
  · rintro ⟨rfl, hall, hmax⟩
    have hrest : rest.takeWhile p = [] ∧ rest.dropWhile p = rest := by
      cases rest with
      | nil => exact ⟨rfl, rfl⟩
      | cons c more =>
        have hc := hmax c rfl
        exact ⟨List.takeWhile_cons_of_neg (by simp [hc]),
          List.dropWhile_cons_of_neg (by simp [hc])⟩
    rw [List.takeWhile_append_of_pos hall, List.dropWhile_append_of_pos hall, hrest.1, hrest.2,
      List.append_nil]
    exact ⟨rfl, rfl⟩
  · rintro ⟨rfl, rfl⟩
    refine ⟨List.takeWhile_append_dropWhile.symm, fun _ hc => List.mem_takeWhile_imp hc, ?_⟩
    intro c hc
    have h := List.head?_dropWhile_not p text
    rw [hc] at h
    exact h

theorem of_text (p : Char → Bool) (text : List Char) :
    IsRun p text (text.takeWhile p) (text.dropWhile p) :=
  iff_takeWhile.mpr ⟨rfl, rfl⟩

theorem of_cons {c : Char} (hc : p c = true) (text : List Char) :
    IsRun p (c :: text) (c :: text.takeWhile p) (text.dropWhile p) :=
  iff_takeWhile.mpr
    ⟨(List.takeWhile_cons_of_pos hc).symm, (List.dropWhile_cons_of_pos hc).symm⟩

/-- A run that is not empty begins with the first character. -/
theorem cons_cases {c : Char} (h : IsRun p (c :: text) run rest) (hrun : run ≠ []) :
    p c = true ∧ run = c :: text.takeWhile p ∧ rest = text.dropWhile p := by
  obtain ⟨rfl, rfl⟩ := iff_takeWhile.mp h
  have hc : p c = true := by
    by_contra hc
    exact hrun (List.takeWhile_cons_of_neg hc)
  exact ⟨hc, List.takeWhile_cons_of_pos hc, List.dropWhile_cons_of_pos hc⟩

end IsRun

/-! ## What a text can begin with -/

theorem isDigit_iff {c : Char} : c.isDigit = true ↔ 48 ≤ c.toNat ∧ c.toNat ≤ 57 := by
  simp [Char.isDigit, UInt32.le_iff_toNat_le]

theorem isNumberChar_iff {c : Char} :
    isNumberChar c = true ↔ (48 ≤ c.toNat ∧ c.toNat ≤ 57) ∨ c.toNat = 46 := by
  have hpoint : c = '.' ↔ c.toNat = 46 := Char.toNat_inj.symm
  simp [isNumberChar, isDigit_iff, hpoint]

theorem isNameStart_iff {c : Char} :
    isNameStart c = true ↔ (65 ≤ c.toNat ∧ c.toNat ≤ 90) ∨
      (97 ≤ c.toNat ∧ c.toNat ≤ 122) ∨ c.toNat = 95 ∨ c.toNat = 36 := by
  have hupper : c.isUpper = true ↔ 65 ≤ c.toNat ∧ c.toNat ≤ 90 := decide_eq_true_iff
  have hlower : c.isLower = true ↔ 97 ≤ c.toNat ∧ c.toNat ≤ 122 :=
    Bool.and_eq_true_iff.trans (and_congr decide_eq_true_iff decide_eq_true_iff)
  have halpha : c.isAlpha = true ↔ c.isUpper = true ∨ c.isLower = true := Bool.or_eq_true_iff
  have hline : c = '_' ↔ c.toNat = 95 := Char.toNat_inj.symm
  have hdollar : c = '$' ↔ c.toNat = 36 := Char.toNat_inj.symm
  rw [isNameStart, Bool.or_eq_true, Bool.or_eq_true, beq_iff_eq, beq_iff_eq, halpha, hupper,
    hlower, hline, hdollar]
  omega

/-- A name begins with any of its characters but a digit. -/
theorem isNameStart_iff_isNameChar {c : Char} :
    isNameStart c = true ↔ isNameChar c = true ∧ c.isDigit = false := by
  have hchar : isNameChar c = (c.isDigit || isNameStart c) := by
    rw [isNameChar, isNameStart, Char.isAlphanum]
    cases c.isAlpha <;> cases c.isDigit <;> simp
  have hdigit : isNameStart c = true → c.isDigit = false := by
    rw [isNameStart_iff, ← Bool.not_eq_true, isDigit_iff]
    omega
  rw [hchar, Bool.or_eq_true]
  constructor
  · exact fun h => ⟨.inr h, hdigit h⟩
  · rintro ⟨h | h, hd⟩
    · simp [h] at hd
    · exact h

/-- What begins a string, a number or a word. -/
def StartsAtom (c : Char) : Prop :=
  (c = '\'' ∨ c = '"') ∨ (c = '-' ∨ isNumberChar c = true) ∨ isNameStart c = true

namespace StartsAtom

variable {c : Char}

theorem isBlank_eq_false (h : StartsAtom c) : isBlank c = false := by
  rcases h with (rfl | rfl) | (rfl | h) | h
  · rfl
  · rfl
  · rfl
  · rw [isNumberChar_iff] at h
    simp only [isBlank, Bool.or_eq_false_iff, Bool.and_eq_false_iff, decide_eq_false_iff_not,
      beq_eq_false_iff_ne]
    omega
  · rw [isNameStart_iff] at h
    simp only [isBlank, Bool.or_eq_false_iff, Bool.and_eq_false_iff, decide_eq_false_iff_not,
      beq_eq_false_iff_ne]
    omega

/-- The other tokens begin differently. -/
theorem ne (h : StartsAtom c) : c ≠ '!' ∧ c ≠ '(' ∧ c ≠ '=' := by
  refine ⟨?_, ?_, ?_⟩
  · rintro rfl
    exact absurd h (by unfold StartsAtom; decide)
  · rintro rfl
    exact absurd h (by unfold StartsAtom; decide)
  · rintro rfl
    exact absurd h (by unfold StartsAtom; decide)

end StartsAtom

theorem ne_nil_of_ofText? {text : List Char} {x : Double} (h : Double.ofText? text = some x) :
    text ≠ [] := by
  rintro rfl
  have : Double.ofText? [] = none := by decide
  rw [this] at h
  cases h

theorem Atom.exists_head {text rest : List Char} {e : Expr} (h : Atom text e rest) :
    ∃ c more, text = c :: more ∧ StartsAtom c := by
  cases h with
  | string hquote _ => exact ⟨_, _, rfl, .inl hquote⟩
  | @number sign _ digits _ _ hsign run value =>
    rcases hsign with rfl | rfl
    · obtain ⟨d, more, rfl⟩ := List.exists_cons_of_ne_nil (ne_nil_of_ofText? value)
      rw [run.split]
      exact ⟨d, more ++ _, rfl, .inr (.inl (.inr (run.all d (by simp))))⟩
    · exact ⟨'-', _, rfl, .inr (.inl (.inl rfl))⟩
  | word run hdigit =>
    rw [run.split]
    exact ⟨_, _, rfl, .inr (.inr (isNameStart_iff_isNameChar.mpr ⟨run.all _ (by simp), hdigit⟩))⟩

/-- No condition and no part of one begins with `=`. -/
theorem Derives.head_ne_equals {symbol : Symbol} {text rest : List Char} {e : Expr}
    (h : Derives symbol text e rest) : text.head? ≠ some '=' := by
  induction h with
  | operand _ ih => exact ih
  | binary _ _ _ ih _ => exact ih
  | not hblanks _ _ => exact hblanks.head_append_ne_equals (by simp)
  | primary _ ih => exact ih
  | parens hblanks _ _ _ => exact hblanks.head_append_ne_equals (by simp)
  | atom hblanks atom =>
    obtain ⟨c, more, rfl, hc⟩ := atom.exists_head
    exact hblanks.head_append_ne_equals (by simpa using hc.ne.2.2)

end Condition

end LiveMarkup
