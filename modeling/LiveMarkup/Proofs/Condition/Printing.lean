import LiveMarkup.Proofs.Condition.Deriving

/-!
# Writing a condition down

A tree is written with the parentheses that its operators need and with any blanks before its
tokens, and is read back as it was.

* `Layout` says what a writer is free to choose: the blanks before every token and at the end, the
  quotes of every string, and the digits of every number.
* `Layout.printIn` writes a tree where a symbol of the grammar is expected. Parentheses stand around
  what the symbol would not derive by itself (`Layout.enclose`).
* `Expr.Writable`: the names of a tree are names of the grammar, and its numbers can be written at
  all. These are the trees that are ever read (`writable_of_derives`).
* `Layout.derives_printIn`: what is written is derived.
-/

namespace LiveMarkup

open Condition

namespace Condition

/-! ## What contains what -/

/-- The looser a symbol binds, the higher its rank. -/
def Symbol.rank : Symbol → ℕ
  | primary => 0
  | unary => 1
  | level l => l.rank + 1

theorem Symbol.rank_le (symbol : Symbol) : symbol.rank ≤ (level .disjunction).rank := by
  cases symbol with
  | level l => cases l <;> decide
  | _ => decide

/-- A symbol derives everything that a tighter one does. -/
theorem Derives.widen {symbol context : Symbol} (h : symbol.rank ≤ context.rank)
    {text rest : List Char} {e : Expr} (hderives : Derives symbol text e rest) :
    Derives context text e rest := by
  have hunary (hsymbol : symbol.rank ≤ 1) : Derives .unary text e rest := by
    cases symbol with
    | primary => exact .primary hderives
    | unary => exact hderives
    | level l => exact absurd hsymbol (by cases l <;> decide)
  have hcomparison (hsymbol : symbol.rank ≤ 2) : Derives (.level .comparison) text e rest := by
    cases symbol with
    | level l => cases l with
      | comparison => exact hderives
      | _ => exact absurd hsymbol (by decide)
    | _ => exact .operand (hunary (by decide))
  have hconjunction (hsymbol : symbol.rank ≤ 3) : Derives (.level .conjunction) text e rest := by
    cases symbol with
    | level l => cases l with
      | conjunction => exact hderives
      | comparison => exact .operand hderives
      | disjunction => exact absurd hsymbol (by decide)
    | _ => exact .operand (hcomparison (by decide))
  cases context with
  | primary =>
    cases symbol with
    | primary => exact hderives
    | _ => exact absurd h (by simp [Symbol.rank])
  | unary => exact hunary h
  | level l => cases l with
    | comparison => exact hcomparison h
    | conjunction => exact hconjunction h
    | disjunction =>
      cases symbol with
      | level l => cases l with
        | disjunction => exact hderives
        | _ => exact .operand (hconjunction (by decide))
      | _ => exact .operand (hconjunction (by decide))

/-! ## What can be written -/

/-- The text writes a number. -/
def IsNumeral (text : List Char) (x : Double) : Prop :=
  ∃ sign digits, text = sign ++ digits ∧ (sign = [] ∨ sign = ['-']) ∧
    (∀ c ∈ digits, isNumberChar c = true) ∧ Double.ofText? text = some x

/-- The text is a word and stands for no literal. -/
def IsName (name : String) : Prop :=
  ∃ c word, name.toList = c :: word ∧ isNameStart c = true ∧
    (∀ d ∈ word, isNameChar d = true) ∧ ofWord (c :: word) = .identifier name

end Condition

/-- The names of a condition are names, and its numbers can be written. -/
def Expr.Writable : Expr → Prop
  | literal (.number x) => ∃ text, IsNumeral text x
  | literal _ => True
  | identifier name => IsName name
  | not operand => operand.Writable
  | binary _ left right => left.Writable ∧ right.Writable

namespace Condition

/-- What follows a number or a word does not go on with it. -/
def Apart (rest : List Char) : Prop :=
  ∀ c, rest.head? = some c → isNameChar c = false ∧ isNumberChar c = false

theorem Apart.nil : Apart [] := by
  rintro c ⟨⟩

theorem Apart.of_cons {c : Char} (hc : isNameChar c = false ∧ isNumberChar c = false)
    (rest : List Char) : Apart (c :: rest) := by
  rintro d ⟨⟩
  exact hc

/-- A blank is a character of neither. -/
theorem AllBlank.apart_append {blanks rest : List Char} (h : AllBlank blanks) (hrest : Apart rest) :
    Apart (blanks ++ rest) := by
  cases blanks with
  | nil => exact hrest
  | cons b more =>
    have hb : ¬StartsAtom b := fun hstart =>
      absurd hstart.isBlank_eq_false (by simp [h b (by simp)])
    have hnumber : isNumberChar b = false :=
      Bool.eq_false_iff.mpr fun hn => hb (.inr (.inl (.inr hn)))
    refine .of_cons ⟨Bool.eq_false_iff.mpr fun hname => ?_, hnumber⟩ _
    have hdigit : b.isDigit = false := (Bool.or_eq_false_iff.mp hnumber).1
    exact hb (.inr (.inr (isNameStart_iff_isNameChar.mpr ⟨hname, hdigit⟩)))

theorem apart_spelling (op : Operator) (behind : List Char) :
    Apart (op.spelling ++ behind) := by
  cases op with
  | compare op => cases op <;> exact .of_cons (by decide) _
  | _ => exact .of_cons (by decide) _

/-! ## Reading makes what can be written -/

theorem ofWord_cases (word : List Char) :
    (∃ b, ofWord word = .literal (.bool b)) ∨ ofWord word = .literal .null ∨
      ofWord word = .literal .undefined ∨ ofWord word = .identifier (String.ofList word) := by
  unfold ofWord
  dsimp only
  split
  · exact .inl ⟨true, rfl⟩
  · exact .inl ⟨false, rfl⟩
  · exact .inr (.inl rfl)
  · exact .inr (.inr (.inl rfl))
  · exact .inr (.inr (.inr rfl))

theorem writable_ofWord {c : Char} {word : List Char} (hstart : isNameStart c = true)
    (hword : ∀ d ∈ word, isNameChar d = true) : (ofWord (c :: word)).Writable := by
  rcases ofWord_cases (c :: word) with ⟨b, h⟩ | h | h | h
  · rw [h]
    exact trivial
  · rw [h]
    exact trivial
  · rw [h]
    exact trivial
  · rw [h]
    exact ⟨c, word, String.toList_ofList, hstart, hword, h⟩

theorem Atom.writable {text rest : List Char} {e : Expr} (h : Atom text e rest) : e.Writable := by
  cases h with
  | string => exact trivial
  | number hsign run value => exact ⟨_, _, _, rfl, hsign, run.all, value⟩
  | word run hdigit =>
    exact writable_ofWord (isNameStart_iff_isNameChar.mpr ⟨run.all _ (by simp), hdigit⟩)
      fun d hd => run.all d (by simp [hd])

theorem writable_of_derives {symbol : Symbol} {text rest : List Char} {e : Expr}
    (h : Derives symbol text e rest) : e.Writable := by
  induction h with
  | operand _ ih => exact ih
  | binary _ _ _ ihleft ihright => exact ⟨ihleft, ihright⟩
  | not _ _ ih => exact ih
  | primary _ ih => exact ih
  | parens _ _ _ ih => exact ih
  | atom _ atom => exact atom.writable

/-! ## Layouts -/

/-- An operand of a condition. The operand of a negation is its right one. -/
inductive Side
  | left
  | right

/-- The tokens that a node of a tree has, and the end of the whole text. -/
inductive Mark
  | opening
  | own
  | closing
  | ending

/-- What a writer is free to choose at the places of a tree. -/
structure Layout where
  /-- The blanks before a token. -/
  blanks : List Side → Mark → { text : List Char // AllBlank text }
  /-- Whether a string has double quotes. -/
  doubled : List Side → Bool
  /-- How a number is written, if it can be. -/
  numeral : Double → List Char
  isNumeral : ∀ text x, IsNumeral text x → IsNumeral (numeral x) x

/-- A character of a string as it is written in quotes. -/
def escaped (quote c : Char) : List Char := if c = quote ∨ c = '\\' then ['\\', c] else [c]

namespace Layout

/-- The layout of an operand. -/
def operand (layout : Layout) (side : Side) : Layout where
  blanks place := layout.blanks (side :: place)
  doubled place := layout.doubled (side :: place)
  numeral := layout.numeral
  isNumeral := layout.isNumeral

variable (layout : Layout)

/-- Any blanks may be chosen: there are numerals for all numbers that have one. -/
theorem exists_blanks_eq (blanks : List Side → Mark → { text : List Char // AllBlank text }) :
    ∃ layout : Layout, layout.blanks = blanks := by
  have hnumerals (x : Double) : ∃ numeral, ∀ text, IsNumeral text x → IsNumeral numeral x := by
    by_cases h : ∃ text, IsNumeral text x
    · obtain ⟨text, htext⟩ := h
      exact ⟨text, fun _ _ => htext⟩
    · exact ⟨[], fun text htext => absurd ⟨text, htext⟩ h⟩
  choose numeral hnumeral using hnumerals
  exact ⟨⟨blanks, fun _ => false, numeral, fun text x => hnumeral x text⟩, rfl⟩

/-- The quotes of a string. -/
def quote : Char := if layout.doubled [] then '"' else '\''

/-- A literal as it is written. -/
def literal : Literal → List Char
  | .number x => layout.numeral x
  | .string s => layout.quote :: (s.toList.flatMap (escaped layout.quote) ++ [layout.quote])
  | .bool true => ['t', 'r', 'u', 'e']
  | .bool false => ['f', 'a', 'l', 's', 'e']
  | .null => ['n', 'u', 'l', 'l']
  | .undefined => ['u', 'n', 'd', 'e', 'f', 'i', 'n', 'e', 'd']

/-- What a symbol derives, written in a context: in parentheses if the context does not derive
it. -/
def enclose (context symbol : Symbol) (bare : List Char) : List Char :=
  if symbol.rank ≤ context.rank then bare
  else (layout.blanks [] .opening).1 ++ '(' :: (bare ++ ((layout.blanks [] .closing).1 ++ [')']))

/-- A tree written where a symbol is expected. -/
def printIn (layout : Layout) (context : Symbol) : Expr → List Char
  | .literal l => (layout.blanks [] .own).1 ++ layout.literal l
  | .identifier name => (layout.blanks [] .own).1 ++ name.toList
  | .not e =>
    layout.enclose context .unary
      ((layout.blanks [] .own).1 ++ '!' :: (layout.operand .right).printIn .unary e)
  | .binary op l r =>
    layout.enclose context (.level op.level)
      ((layout.operand .left).printIn (.level op.level) l ++
        ((layout.blanks [] .own).1 ++
          (op.spelling ++ (layout.operand .right).printIn op.level.operand r)))

/-- A condition as a whole text. -/
def print (e : Expr) : List Char :=
  layout.printIn (.level .disjunction) e ++ (layout.blanks [] .ending).1

/-! ## What is written is derived -/

theorem stringBody_escaped {quote : Char} (hquote : quote = '\'' ∨ quote = '"')
    (cs rest : List Char) :
    StringBody quote (cs.flatMap (escaped quote) ++ quote :: rest) cs rest := by
  induction cs with
  | nil => exact .close rest
  | cons c cs ih =>
    rw [List.flatMap_cons, List.append_assoc, escaped]
    split
    · next h =>
      have hplain : unescapeChar c = c := by
        rcases h with rfl | rfl
        · rcases hquote with rfl | rfl <;> rfl
        · rfl
      have := StringBody.escaped c ih
      rwa [hplain] at this
    · next h => exact .plain (fun hc => h (.inl hc)) (fun hc => h (.inr hc)) ih

theorem atom_word {c : Char} {word rest : List Char} {e : Expr} (hstart : isNameStart c = true)
    (hword : word.all isNameChar = true) (he : ofWord (c :: word) = e) (hrest : Apart rest) :
    Atom (c :: word ++ rest) e rest := by
  subst he
  have hc := isNameStart_iff_isNameChar.mp hstart
  refine .word ⟨rfl, ?_, fun d hd => (hrest d hd).1⟩ hc.2
  rintro d (_ | ⟨_, hd⟩)
  · exact hc.1
  · exact List.all_eq_true.1 hword d hd

theorem quote_cases : layout.quote = '\'' ∨ layout.quote = '"' := by
  rw [quote]
  split
  · exact .inr rfl
  · exact .inl rfl

theorem atom_literal {l : Literal} (hl : (Expr.literal l).Writable) {rest : List Char}
    (hrest : Apart rest) : Atom (layout.literal l ++ rest) (.literal l) rest := by
  cases l with
  | number x =>
    obtain ⟨text, htext⟩ := hl
    obtain ⟨sign, digits, heq, hsign, hdigits, hx⟩ := layout.isNumeral text x htext
    rw [literal, heq, List.append_assoc]
    exact .number hsign ⟨rfl, hdigits, fun d hd => (hrest d hd).2⟩ (heq ▸ hx)
  | string s =>
    have hbody := stringBody_escaped layout.quote_cases s.toList rest
    have hatom := Atom.string layout.quote_cases hbody
    rw [String.ofList_toList] at hatom
    simpa [literal] using hatom
  | bool b =>
    cases b with
    | true => exact atom_word (by decide) (by decide) (by decide) hrest
    | false => exact atom_word (by decide) (by decide) (by decide) hrest
  | null => exact atom_word (by decide) (by decide) (by decide) hrest
  | undefined => exact atom_word (by decide) (by decide) (by decide) hrest

/-- What is derived bare is derived in every context when it is enclosed. -/
theorem derives_enclose {context symbol : Symbol} {bare : List Char} {e : Expr}
    (hbare : ∀ rest, Apart rest → Derives symbol (bare ++ rest) e rest) {rest : List Char}
    (hrest : Apart rest) : Derives context (layout.enclose context symbol bare ++ rest) e rest := by
  rw [enclose]
  split
  · next h => exact (hbare rest hrest).widen h
  · have hclosing := (layout.blanks [] .closing).2
    have hinner := hbare _ (hclosing.apart_append (.of_cons (c := ')') (by decide) rest))
    have hparens :=
      Derives.parens (layout.blanks [] .opening).2 (hinner.widen symbol.rank_le) hclosing
    simpa using hparens.widen (Nat.zero_le _)

theorem derives_printIn {e : Expr} (he : e.Writable) (layout : Layout) (context : Symbol)
    {rest : List Char} (hrest : Apart rest) :
    Derives context (layout.printIn context e ++ rest) e rest := by
  induction e generalizing layout context rest with
  | literal l =>
    have hatom := Derives.atom (layout.blanks [] .own).2 (layout.atom_literal he hrest)
    rw [printIn, List.append_assoc]
    exact hatom.widen (Nat.zero_le _)
  | identifier name =>
    obtain ⟨c, word, heq, hstart, hword, hname⟩ := he
    have hatom := Derives.atom (layout.blanks [] .own).2
      (atom_word hstart (List.all_eq_true.2 hword) hname hrest)
    rw [printIn, List.append_assoc, heq]
    exact hatom.widen (Nat.zero_le _)
  | not e ih =>
    rw [printIn]
    refine layout.derives_enclose (fun rest hrest => ?_) hrest
    have hnot := Derives.not (layout.blanks [] .own).2 (ih he (layout.operand .right) .unary hrest)
    simpa using hnot
  | binary op l r ihleft ihright =>
    rw [printIn]
    refine layout.derives_enclose (fun rest hrest => ?_) hrest
    have hright := ihright he.2 (layout.operand .right) op.level.operand hrest
    have hown := (layout.blanks [] .own).2
    have happart := hown.apart_append (apart_spelling op
      ((layout.operand .right).printIn op.level.operand r ++ rest))
    have hleft := ihleft he.1 (layout.operand .left) (.level op.level) happart
    simpa using Derives.binary hleft hown hright

/-- A tree that can be written is read as it was, and no other tree is. -/
theorem parse_print_iff {e : Expr} : Expr.parse (layout.print e) = .ok e ↔ e.Writable := by
  rw [parse_eq_ok_iff_derives]
  constructor
  · rintro ⟨rest, hderives, -⟩
    exact writable_of_derives hderives
  · intro he
    have hending := (layout.blanks [] .ending).2
    have happart := hending.apart_append .nil
    rw [List.append_nil] at happart
    exact ⟨_, derives_printIn he layout _ happart, hending⟩

end Layout

end Condition

/-- A text is read as a tree exactly if the grammar derives that tree from it, up to blanks at its
end; and every tree that can be written is read back from its text, with any blanks between the
tokens and only the parentheses that the operators need. -/
theorem parse_grammar_and_print :
    (∀ text e, Expr.parse text = .ok e ↔
      ∃ rest, Derives (.level .disjunction) text e rest ∧ AllBlank rest) ∧
    (∀ (layout : Layout) (e : Expr), Expr.parse (layout.print e) = .ok e ↔ e.Writable) ∧
    ∀ blanks, ∃ layout : Layout, layout.blanks = blanks :=
  ⟨fun _ _ => parse_eq_ok_iff_derives, fun layout _ => layout.parse_print_iff,
    Layout.exists_blanks_eq⟩

end LiveMarkup
