/-!
# Escaping text for markup

The five characters that mean something in markup are written as character references, so that
an escaped text stands for itself between tags and inside quoted attribute values.
-/

namespace LiveMarkup

/-- What stands for one character of an escaped text. -/
def escapeChar (c : Char) : List Char :=
  match c with
  | '&' => "&amp;".toList
  | '<' => "&lt;".toList
  | '>' => "&gt;".toList
  | '"' => "&quot;".toList
  | '\'' => "&#39;".toList
  | c => [c]

/-- A character that means something in markup. -/
def isMarkupChar (c : Char) : Bool :=
  c == '&' || c == '<' || c == '>' || c == '"' || c == '\''

/-- The text with its markup characters written as character references. A text without any is
given back as it is. -/
def escape (text : List Char) : List Char :=
  if text.any isMarkupChar then text.flatMap escapeChar else text

theorem escapeChar_of_not_isMarkupChar {c : Char} (h : isMarkupChar c = false) :
    escapeChar c = [c] := by
  simp only [isMarkupChar, Bool.or_eq_false_iff, beq_eq_false_iff_ne] at h
  rw [escapeChar.eq_def]
  split <;> simp_all

/-- The text that is given back is the one that would be written. -/
theorem escape_eq_flatMap (text : List Char) : escape text = text.flatMap escapeChar := by
  rw [escape]
  split
  · rfl
  · next h =>
    induction text with
    | nil => rfl
    | cons c rest ih =>
      rw [List.any_cons, Bool.or_eq_true, not_or, Bool.not_eq_true] at h
      rw [List.flatMap_cons, ← ih h.2, escapeChar_of_not_isMarkupChar h.1, List.singleton_append]

@[simp] theorem escape_nil : escape [] = [] := rfl

@[simp] theorem escape_cons (c : Char) (rest : List Char) :
    escape (c :: rest) = escapeChar c ++ escape rest := by
  rw [escape_eq_flatMap, escape_eq_flatMap, List.flatMap_cons]

theorem escape_append (a b : List Char) : escape (a ++ b) = escape a ++ escape b := by
  simp only [escape_eq_flatMap, List.flatMap_append]

end LiveMarkup
