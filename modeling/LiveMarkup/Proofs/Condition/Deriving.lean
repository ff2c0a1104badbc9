import LiveMarkup.Proofs.Condition.Grammar
import Mathlib.Data.List.DropRight

/-!
# The reader accepts its grammar

A condition is read exactly if the grammar derives it, and its tree is the derived one
(`parse_eq_ok_iff_derives`).

* Soundness (`Derives.of_readLevel`) is by induction on the length of the text. From operands that
  are read right follows, along the chain of operators, that their level is read right
  (`LevelSound.of_operands`), and an operand contains only shorter conditions.
* Completeness (`Derives.accepts`) is by induction on the derivation. A level is complete only
  where no tighter operator goes on: there the reader of the level stands before the same chain as
  the derivation (`Accepts`).

A reader of a level leaves no blanks where a derivation leaves some, so that what they leave is
compared behind its blanks.
-/

namespace LiveMarkup

namespace Condition

/-! ## Atoms -/

/-- A string is read up to its closing quote, behind the characters that were seen before. -/
theorem plain_readString_iff {quote : Char} (hquote : quote ≠ '\\') (start seen text : List Char)
    {rest : List Char} {e : Expr} :
    (readString quote start seen text).plain = .ok (e, rest) ↔
      ∃ cs, StringBody quote text cs rest ∧
        e = .literal (.string (String.ofList (seen.reverse ++ cs))) := by
  induction seen, text using readString.induct quote with
  | case1 seen =>
    rw [readString]
    constructor
    · rintro ⟨⟩
    · rintro ⟨cs, ⟨⟩, -⟩
  | case2 seen more =>
    rw [readString.eq_def]
    simp only [if_pos]
    constructor
    · rintro ⟨⟩
      exact ⟨[], .close _, by simp⟩
    · rintro ⟨cs, hcs, rfl⟩
      cases hcs with
      | close => simp [Reading.tail, Reading.plain, Shorter.tail]
      | plain hc => exact absurd rfl hc
      | escaped => exact absurd rfl hquote
  | case3 seen hne =>
    rw [readString, if_neg hne, if_pos rfl]
    constructor
    · rintro ⟨⟩
    · rintro ⟨cs, hcs, -⟩
      cases hcs with
      | close => exact absurd rfl hquote
      | plain _ hc => exact absurd rfl hc
  | case4 seen d more hne ih =>
    rw [readString, if_neg hne, if_pos rfl]
    simp only [Reading.plain_cons, ih, List.reverse_cons, List.append_assoc, List.singleton_append]
    constructor
    · rintro ⟨cs, hcs, rfl⟩
      exact ⟨_, .escaped d hcs, rfl⟩
    · rintro ⟨cs, hcs, rfl⟩
      cases hcs with
      | close => exact absurd rfl hquote
      | plain _ hc => exact absurd rfl hc
      | escaped _ more => exact ⟨_, more, rfl⟩
  | case5 seen c more hne hescape ih =>
    rw [readString.eq_def]
    simp only [if_neg hne, if_neg hescape, Reading.plain_cons, ih, List.reverse_cons,
      List.append_assoc, List.singleton_append]
    constructor
    · rintro ⟨cs, hcs, rfl⟩
      exact ⟨_, .plain hne hescape hcs, rfl⟩
    · rintro ⟨cs, hcs, rfl⟩
      cases hcs with
      | close => exact absurd rfl hne
      | plain _ _ more => exact ⟨_, more, rfl⟩
      | escaped _ more => exact absurd rfl hescape

/-- A number is read as the longest run of digits and points behind its first character. -/
theorem plain_readNumber_iff {c : Char} {text rest : List Char} {e : Expr} :
    (readNumber c text).plain = .ok (e, rest) ↔
      rest = text.dropWhile isNumberChar ∧
        ∃ x, Double.ofText? (c :: text.takeWhile isNumberChar) = some x ∧
          e = .literal (.number x) := by
  rw [readNumber]
  split
  · next x hx =>
    rw [hx]
    constructor
    · rintro ⟨⟩
      exact ⟨rfl, x, rfl, rfl⟩
    · rintro ⟨rfl, _, ⟨⟩, rfl⟩
      rfl
  · next hx =>
    rw [hx]
    constructor
    · rintro ⟨⟩
    · rintro ⟨-, _, ⟨⟩, -⟩

/-- A word is read as the longest run of characters of a name. -/
theorem plain_readWord_iff {c : Char} {text rest : List Char} {e : Expr} :
    (readWord c text).plain = .ok (e, rest) ↔
      rest = text.dropWhile isNameChar ∧ e = ofWord (c :: text.takeWhile isNameChar) := by
  constructor
  · rintro ⟨⟩
    exact ⟨rfl, rfl⟩
  · rintro ⟨rfl, rfl⟩
    rfl

/-- The first character tells the strings, the numbers and the words apart. -/
theorem atom_cons_iff {c : Char} {text rest : List Char} {e : Expr} :
    Atom (c :: text) e rest ↔
      ((c = '\'' ∨ c = '"') ∧
        ∃ cs, StringBody c text cs rest ∧ e = .literal (.string (String.ofList cs))) ∨
      ((c = '-' ∨ isNumberChar c = true) ∧ rest = text.dropWhile isNumberChar ∧
        ∃ x, Double.ofText? (c :: text.takeWhile isNumberChar) = some x ∧
          e = .literal (.number x)) ∨
      (isNameStart c = true ∧ rest = text.dropWhile isNameChar ∧
        e = ofWord (c :: text.takeWhile isNameChar)) := by
  constructor
  · intro h
    generalize hwhole : c :: text = whole at h
    cases h with
    | string hquote body =>
      cases hwhole
      exact .inl ⟨hquote, _, body, rfl⟩
    | number hsign run value =>
      rcases hsign with rfl | rfl
      · subst hwhole
        obtain ⟨hc, rfl, rfl⟩ := run.cons_cases (ne_nil_of_ofText? value)
        exact .inr (.inl ⟨.inr hc, rfl, _, value, rfl⟩)
      · cases hwhole
        obtain ⟨rfl, rfl⟩ := IsRun.iff_takeWhile.mp run
        exact .inr (.inl ⟨.inl rfl, rfl, _, value, rfl⟩)
    | word run hdigit =>
      subst hwhole
      obtain ⟨hc, hword, rfl⟩ := run.cons_cases (by simp)
      cases hword
      exact .inr (.inr ⟨isNameStart_iff_isNameChar.mpr ⟨hc, hdigit⟩, rfl, rfl⟩)
  · rintro (⟨hquote, cs, hcs, rfl⟩ | ⟨hc, rfl, x, hx, rfl⟩ | ⟨hc, rfl, rfl⟩)
    · exact .string hquote hcs
    · by_cases hsign : c = '-'
      · subst hsign
        exact .number (.inr rfl) (.of_text _ _) hx
      · exact .number (.inl rfl) (.of_cons (hc.resolve_left hsign) text) hx
    · have hname := isNameStart_iff_isNameChar.mp hc
      exact .word (.of_cons hname.1 text) hname.2

/-- A string, a number or a word is read as the grammar has it. -/
theorem plain_readAtom_iff {c : Char} {text rest : List Char} {e : Expr} :
    (readAtom c text).plain = .ok (e, rest) ↔ Atom (c :: text) e rest := by
  have hapart : (c = '\'' ∨ c = '"' → ¬(c = '-' ∨ isNumberChar c = true)) ∧
      (c = '\'' ∨ c = '"' → ¬isNameStart c = true) ∧
      (c = '-' ∨ isNumberChar c = true → ¬isNameStart c = true) := by
    refine ⟨?_, ?_, ?_⟩
    · rintro (rfl | rfl) <;> decide
    · rintro (rfl | rfl) <;> decide
    · rintro (rfl | h)
      · decide
      · rw [isNameStart_iff]
        rw [isNumberChar_iff] at h
        omega
  rw [readAtom, atom_cons_iff]
  split
  · next hquote =>
    have hescape : c ≠ '\\' := by rcases hquote with rfl | rfl <;> decide
    simp only [Reading.plain_cons, plain_readString_iff hescape, List.reverse_nil,
      List.nil_append, hquote, hapart.1 hquote, hapart.2.1 hquote, true_and, false_and, or_false,
      Bool.false_eq_true]
  · next hquote =>
    split
    · next hnumber =>
      simp only [plain_readNumber_iff, hquote, hnumber, hapart.2.2 hnumber, true_and, false_and,
        or_false, false_or, Bool.false_eq_true]
    · next hnumber =>
      split
      · next hname =>
        simp only [plain_readWord_iff, hquote, hnumber, hname, true_and, false_and, false_or]
      · next hname =>
        simp only [hquote, hnumber, hname, Reading.plain, false_and, or_false, reduceCtorEq]

/-! ## Operators -/

namespace Level

/-- The operator of a level at the start of a text, and what stands behind it. -/
def operatorAt? (level : Level) (text : List Char) : Option (Operator × List Char) :=
  (level.operator? text).map fun found => (found.1, found.2.1)

/-- What a level finds as its operator is written at the start of the text. -/
theorem eq_of_operatorAt? {level : Level} {text behind : List Char} {op : Operator}
    (h : level.operatorAt? text = some (op, behind)) :
    op.level = level ∧ text = op.spelling ++ behind := by
  rw [operatorAt?, operator?.eq_def] at h
  split at h <;> cases h <;> exact ⟨rfl, rfl⟩

/-- An operator is found where it is written, unless the text goes on to a longer one. -/
theorem operatorAt?_spelling (op : Operator) {behind : List Char}
    (h : behind.head? ≠ some '=') :
    op.level.operatorAt? (op.spelling ++ behind) = some (op, behind) := by
  cases behind with
  | nil =>
    cases op with
    | compare op => cases op <;> rfl
    | _ => rfl
  | cons c more =>
    have hc : c ≠ '=' := fun hc => h (congrArg some hc)
    cases op with
    | compare op =>
      cases op <;> simp [Operator.spelling, Operator.level, operatorAt?, operator?, hc,
        Shorter.tail, Shorter.cons]
    | _ => rfl

/-- A level finds no operator where one of another level is written. -/
theorem operatorAt?_spelling_of_ne {level : Level} {op : Operator} (h : op.level ≠ level)
    (behind : List Char) : level.operatorAt? (op.spelling ++ behind) = none := by
  cases level <;> cases op with
  | compare op => cases op <;> first | rfl | exact absurd rfl h
  | _ => first | rfl | exact absurd rfl h

end Level

/-! ## Chains of operators -/

theorem plain_readChain (level : Level) (left : Expr) (text : List Char) :
    (readChain level left text).plain =
      match level.operatorAt? (text.dropWhile isBlank) with
      | none => .ok (left, text.dropWhile isBlank)
      | some (op, behind) =>
        match (readOperand level behind).plain with
        | .ok (right, t) => (readChain level (.binary op left right) t).plain
        | .error e => .error e := by
  rw [readChain]
  split
  · next h =>
    simp only [Rest.dropWhile] at h
    simp only [Level.operatorAt?, h, Option.map_none]
    rfl
  · next op rest h =>
    simp only [Rest.dropWhile] at h
    simp only [Level.operatorAt?, h, Option.map_some]
    rw [Scan.plain_past, Reading.plain_toScan]
    refine (Reading.plain_past rest.toRest _).trans ((Reading.plain_andThen
      (readOperand level rest.1) fun right t => readChain level (.binary op left right) t).trans ?_)
    rcases (readOperand level rest.1).plain with e | ⟨right, t⟩
    · rfl
    · rfl

/-- A chain depends on what stands behind the blanks. -/
theorem plain_readChain_congr (level : Level) (left : Expr) {s t : List Char}
    (h : s.dropWhile isBlank = t.dropWhile isBlank) :
    (readChain level left s).plain = (readChain level left t).plain := by
  rw [plain_readChain, plain_readChain, h]

theorem plain_readClosing_iff {inner e : Expr} {text rest : List Char} :
    (readClosing inner text).plain = .ok (e, rest) ↔
      e = inner ∧ text.dropWhile isBlank = ')' :: rest := by
  rw [readClosing]
  split
  · next h =>
    rw [dropWhile_of_afterRun?_eq_none h]
    simp [Scan.plain]
  · next c behind h =>
    rw [dropWhile_of_afterRun? h]
    by_cases hc : c = ')'
    · simp [hc, Scan.plain, Shorter.toRest, eq_comm]
    · simp [hc, Scan.plain]

/-! ## Soundness -/

/-- What is read up to a length as an operand of a level is derived. -/
def OperandsSound (level : Level) (n : ℕ) : Prop :=
  ∀ (text rest : List Char) (e : Expr), text.length ≤ n →
    (readOperand level text).plain = .ok (e, rest) →
    ∃ r, Derives level.operand text e r ∧ r.dropWhile isBlank = rest.dropWhile isBlank

/-- What is read up to a length as a level is derived. -/
def LevelSound (level : Level) (n : ℕ) : Prop :=
  ∀ (text rest : List Char) (e : Expr), text.length ≤ n →
    (readLevel level text).plain = .ok (e, rest) →
    ∃ r, Derives (.level level) text e r ∧ r.dropWhile isBlank = rest.dropWhile isBlank

/-- Along a chain the tree so far stays derived from the whole text. -/
theorem OperandsSound.chain {level : Level} {n : ℕ} (h : OperandsSound level n)
    {whole text rest r : List Char} {left e : Expr} (hleft : Derives (.level level) whole left r)
    (hr : r.dropWhile isBlank = text.dropWhile isBlank) (hlength : text.length ≤ n)
    (hchain : (readChain level left text).plain = .ok (e, rest)) :
    ∃ r, Derives (.level level) whole e r ∧ r.dropWhile isBlank = rest.dropWhile isBlank := by
  induction hm : text.length using Nat.strong_induction_on generalizing text left r with
  | _ m ih =>
  subst hm
  rw [plain_readChain] at hchain
  cases hop : level.operatorAt? (text.dropWhile isBlank) with
  | none =>
    simp only [hop] at hchain
    cases hchain
    exact ⟨r, hleft, by rw [hr, List.dropWhile_idempotent]⟩
  | some found =>
    obtain ⟨op, behind⟩ := found
    obtain ⟨rfl, hbehind⟩ := Level.eq_of_operatorAt? hop
    have hshort : behind.length < text.length := by
      have hpos : 0 < op.spelling.length := op.spelling_length_pos
      have hle := length_dropWhile_le isBlank text
      rw [hbehind, List.length_append] at hle
      omega
    simp only [hop] at hchain
    cases hright : (readOperand op.level behind).plain with
    | error f => simp [hright] at hchain
    | ok found =>
      obtain ⟨right, t⟩ := found
      simp only [hright] at hchain
      obtain ⟨r', hderives, hr'⟩ := h _ _ _ (by omega) hright
      obtain ⟨blanks, hblanks, heq⟩ := exists_blanks r
      rw [hr, hbehind] at heq
      rw [heq] at hleft
      have := Reading.length_of_plain hright
      exact ih t.length (by omega) (.binary hleft hblanks hderives) hr' (by omega) hchain rfl

theorem OperandsSound.level {level : Level} {n : ℕ} (h : OperandsSound level n) :
    LevelSound level n := by
  intro text rest e hlength hread
  rw [plain_readLevel] at hread
  cases hleft : (readOperand level text).plain with
  | error f => simp [hleft] at hread
  | ok found =>
    obtain ⟨left, t⟩ := found
    simp only [hleft] at hread
    obtain ⟨r, hr, hrest⟩ := h _ _ _ hlength hleft
    have := Reading.length_of_plain hleft
    exact h.chain (.operand hr) hrest (by omega) hread

/-- A level is read right if the operands behind their negations are. -/
theorem OperandsSound.all {n : ℕ} (h : OperandsSound .comparison n) (level : Level) :
    LevelSound level n := by
  have hconjunction : OperandsSound .conjunction n := by
    intro text rest e hlength hread
    rw [readOperand_eq] at hread
    exact h.level _ _ _ hlength hread
  have hdisjunction : OperandsSound .disjunction n := by
    intro text rest e hlength hread
    rw [readOperand_eq] at hread
    exact hconjunction.level _ _ _ hlength hread
  cases level with
  | comparison => exact h.level
  | conjunction => exact hconjunction.level
  | disjunction => exact hdisjunction.level

/-- An operand behind negations is read right. -/
theorem Derives.of_readUnary {text rest : List Char} {e : Expr}
    (h : (readUnary text).plain = .ok (e, rest)) : Derives .unary text e rest := by
  induction hn : text.length using Nat.strong_induction_on generalizing text rest e with
  | _ n ih =>
  subst hn
  obtain ⟨blanks, hblanks, heq⟩ := exists_blanks text
  rw [plain_readUnary] at h
  cases hd : text.dropWhile isBlank with
  | nil =>
    rw [hd] at h
    cases h
  | cons c more =>
    rw [hd] at h heq
    have hshort : more.length < text.length := by
      rw [heq, List.length_append, List.length_cons]
      omega
    rw [heq]
    rw [readBehindBlanks] at h
    split at h
    · next hnot =>
      obtain ⟨inner, hinner, rfl⟩ := Reading.plain_map_eq_ok_iff.mp h
      rw [hnot.1]
      exact .not hblanks (ih _ hshort hinner rfl)
    · split at h
      · next hparen =>
        have hunary : OperandsSound .comparison more.length := by
          intro t r e hlength hread
          rw [readOperand_eq] at hread
          exact ⟨r, ih t.length (by omega) hread rfl, rfl⟩
        rw [Reading.plain_andThen (readLevel .disjunction more) readClosing] at h
        cases hinner : (readLevel .disjunction more).plain with
        | error f => simp [hinner] at h
        | ok found =>
          obtain ⟨inner, t⟩ := found
          simp only [hinner] at h
          obtain ⟨rfl, hclosing⟩ := plain_readClosing_iff.mp h
          obtain ⟨r, hderives, hr⟩ := hunary.all .disjunction _ _ _ (Nat.le_refl _) hinner
          obtain ⟨closing, hblank, hsplit⟩ := exists_blanks r
          rw [hr, hclosing] at hsplit
          rw [hparen]
          exact .primary (.parens hblanks (hsplit ▸ hderives) hblank)
      · exact .primary (.atom hblanks (plain_readAtom_iff.mp h))

/-- A level is read right, except that the blanks behind it are gone. -/
theorem Derives.of_readLevel {level : Level} {text rest : List Char} {e : Expr}
    (h : (readLevel level text).plain = .ok (e, rest)) :
    ∃ r, Derives (.level level) text e r ∧ r.dropWhile isBlank = rest.dropWhile isBlank := by
  have hunary : OperandsSound .comparison text.length := by
    intro t r e _ hread
    rw [readOperand_eq] at hread
    exact ⟨r, .of_readUnary hread, rfl⟩
  exact hunary.all level _ _ _ (Nat.le_refl _) h

/-! ## Completeness -/

/-- No operator that binds tighter than a level stands behind the blanks of a text. -/
def Loose (level : Level) (text : List Char) : Prop :=
  ∀ tighter : Level, tighter.rank < level.rank →
    tighter.operatorAt? (text.dropWhile isBlank) = none

/-- The reader makes of the text what a derivation has: an operand is read, and the reader of a
level stands before the same chain. -/
def Accepts : Symbol → List Char → Expr → List Char → Prop
  | .level level, text, e, rest =>
    Loose level rest → (readLevel level text).plain = (readChain level e rest).plain
  | .unary, text, e, rest | .primary, text, e, rest => (readUnary text).plain = .ok (e, rest)

/-- Behind a level nothing but a looser operator goes on. -/
theorem plain_readLevel_of_accepts {level : Level} {text rest : List Char} {e : Expr}
    (h : Accepts (.level level) text e rest)
    (hrest : ∀ other : Level, other.rank ≤ level.rank →
      other.operatorAt? (rest.dropWhile isBlank) = none) :
    (readLevel level text).plain = .ok (e, rest.dropWhile isBlank) := by
  rw [h fun other ho => hrest other (Nat.le_of_lt ho), plain_readChain,
    hrest level (Nat.le_refl _)]

/-- An operand of a level is read where no tighter operator goes on. -/
theorem plain_readOperand_of_accepts {level : Level} {text rest : List Char} {e : Expr}
    (h : Accepts level.operand text e rest) (hrest : Loose level rest) :
    ∃ r, (readOperand level text).plain = .ok (e, r) ∧
      r.dropWhile isBlank = rest.dropWhile isBlank := by
  rw [readOperand_eq]
  cases level with
  | comparison => exact ⟨rest, h, rfl⟩
  | conjunction =>
    exact ⟨_, plain_readLevel_of_accepts h fun other ho => hrest other (Nat.lt_succ_of_le ho),
      List.dropWhile_idempotent _ _⟩
  | disjunction =>
    exact ⟨_, plain_readLevel_of_accepts h fun other ho => hrest other (Nat.lt_succ_of_le ho),
      List.dropWhile_idempotent _ _⟩

theorem Derives.accepts {symbol : Symbol} {text rest : List Char} {e : Expr}
    (h : Derives symbol text e rest) : Accepts symbol text e rest := by
  induction h with
  | @operand level text rest e _ ih =>
    intro hloose
    obtain ⟨r, hread, hr⟩ := plain_readOperand_of_accepts ih hloose
    rw [plain_readLevel, hread]
    exact plain_readChain_congr level e hr
  | @binary op text blanks behind rest left right _ hblanks hright ihleft ihright =>
    intro hloose
    have hbehind : (blanks ++ (op.spelling ++ behind)).dropWhile isBlank =
        op.spelling ++ behind := by
      rw [hblanks.dropWhile_append, op.dropWhile_spelling]
    have hbefore : Loose op.level (blanks ++ (op.spelling ++ behind)) := by
      intro tighter ht
      rw [hbehind]
      refine Level.operatorAt?_spelling_of_ne ?_ behind
      rintro rfl
      exact absurd ht (Nat.lt_irrefl _)
    obtain ⟨r, hread, hr⟩ := plain_readOperand_of_accepts ihright hloose
    rw [ihleft hbefore, plain_readChain, hbehind,
      Level.operatorAt?_spelling op hright.head_ne_equals]
    simp only [hread]
    exact plain_readChain_congr _ _ hr
  | @not blanks behind rest e hblanks operand ih =>
    show (readUnary _).plain = _
    rw [plain_readUnary, hblanks.dropWhile_append_cons (by decide), readBehindBlanks,
      if_pos ⟨rfl, operand.head_ne_equals⟩]
    exact Reading.plain_map_eq_ok_iff.mpr ⟨e, ih, rfl⟩
  | primary _ ih => exact ih
  | @parens blanks behind closing rest e hblanks _ hclosing ih =>
    have hinner : (readLevel .disjunction behind).plain = .ok (e, ')' :: rest) := by
      have hend := hclosing.dropWhile_append_cons (c := ')') (by decide) rest
      have h := plain_readLevel_of_accepts ih fun other _ => by
        rw [hend]
        cases other <;> rfl
      rwa [hend] at h
    show (readUnary _).plain = _
    rw [plain_readUnary, hblanks.dropWhile_append_cons (by decide), readBehindBlanks,
      if_neg (by simp), if_pos rfl,
      Reading.plain_andThen (readLevel .disjunction behind) readClosing, hinner]
    exact plain_readClosing_iff.mpr ⟨rfl, rfl⟩
  | @atom blanks text rest e hblanks atom =>
    obtain ⟨c, more, rfl, hc⟩ := atom.exists_head
    show (readUnary _).plain = _
    rw [plain_readUnary, hblanks.dropWhile_append_cons hc.isBlank_eq_false, readBehindBlanks,
      if_neg fun h => hc.ne.1 h.1, if_neg hc.ne.2.1]
    exact plain_readAtom_iff.mpr atom

end Condition

open Condition

/-- A condition is read exactly if the grammar derives it up to blanks at its end. -/
theorem parse_eq_ok_iff_derives {text : List Char} {e : Expr} :
    Expr.parse text = .ok e ↔
      ∃ rest, Derives (.level .disjunction) text e rest ∧ AllBlank rest := by
  rw [parse_eq_ok_iff]
  constructor
  · rintro ⟨rest, hread, hrest⟩
    obtain ⟨r, hr, heq⟩ := Derives.of_readLevel hread
    exact ⟨r, hr, AllBlank.iff_dropWhile_eq_nil.mpr (heq.trans hrest)⟩
  · rintro ⟨rest, hderives, hblank⟩
    have hnil := AllBlank.iff_dropWhile_eq_nil.mp hblank
    have hread := plain_readLevel_of_accepts hderives.accepts fun other _ => by
      rw [hnil]
      cases other <;> rfl
    exact ⟨_, hread, by rw [hnil]; rfl⟩

end LiveMarkup
