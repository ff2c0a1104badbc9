import LiveMarkup.Json.Text

/-!
# The characters of a number

Whatever number is written, its text is made of digits, signs, points and exponent marks
(`Number.isNumeralText_text`).
-/

namespace LiveMarkup

/-- A digit, or one of the marks that a number is written with. -/
def isNumeralChar (c : Char) : Bool := c.isDigit || ['-', '+', '.', 'e'].contains c

/-- A text of digits and marks of numbers. -/
def IsNumeralText (text : List Char) : Prop := text.all isNumeralChar = true

instance (text : List Char) : Decidable (IsNumeralText text) :=
  inferInstanceAs (Decidable (_ = true))

namespace IsNumeralText

variable {s t : List Char}

theorem iff_forall : IsNumeralText s ↔ ∀ c ∈ s, isNumeralChar c = true := List.all_eq_true

theorem append (hs : IsNumeralText s) (ht : IsNumeralText t) : IsNumeralText (s ++ t) :=
  iff_forall.2 (List.forall_mem_append.2 ⟨iff_forall.1 hs, iff_forall.1 ht⟩)

/-- Part of a numeral text, in any order, is one. -/
theorem of_subset (ht : IsNumeralText t) (h : s ⊆ t) : IsNumeralText s :=
  iff_forall.2 fun c hc => iff_forall.1 ht c (h hc)

theorem point (hs : IsNumeralText s) (ht : IsNumeralText t) : IsNumeralText (s ++ '.' :: t) :=
  hs.append (.append (s := ['.']) (by decide) ht)

theorem of_isDigit (h : ∀ c ∈ s, c.isDigit = true) : IsNumeralText s := by
  refine iff_forall.2 fun c hc => ?_
  rw [isNumeralChar, h c hc, Bool.true_or]

theorem toDigits (n : Nat) : IsNumeralText (Nat.toDigits 10 n) :=
  of_isDigit fun _ h => Nat.isDigit_of_mem_toDigits (by decide) (by decide) h

theorem toString_nat (n : Nat) : IsNumeralText (toString n).toList := by
  rw [show toString n = n.repr from rfl, Nat.toList_repr]
  exact toDigits n

theorem toString_int (n : Int) : IsNumeralText (toString n).toList := by
  cases n with
  | ofNat m => exact toString_nat m
  | negSucc m =>
    rw [show toString (Int.negSucc m) = "-" ++ (m + 1).repr from rfl, String.toList_append]
    exact append (by decide) (toString_nat (m + 1))

end IsNumeralText

/-- A layout adds only digits and marks of numbers. -/
structure Decimal.Layout.IsNumeral (layout : Decimal.Layout) : Prop where
  wholeEnding : IsNumeralText layout.wholeEnding.toList
  exponentMark : IsNumeralText layout.exponentMark.toList
  negativeExponentMark : IsNumeralText layout.negativeExponentMark.toList

/-- A decimal is written with characters of numerals only, if its layout adds no others. -/
theorem Decimal.isNumeralText_write {layout : Decimal.Layout} (h : layout.IsNumeral)
    (d : Decimal) : IsNumeralText (d.write layout).toList := by
  have hdigits := IsNumeralText.toDigits d.normalize.digits
  have hzeros (n : Nat) : IsNumeralText (List.replicate n '0') :=
    .of_isDigit fun c hc => (List.eq_of_mem_replicate hc) ▸ rfl
  simp only [Decimal.write]
  split
  · split
    · rw [String.toList_append, String.toList_ofList]
      exact (hdigits.append (hzeros _)).append h.wholeEnding
    · split
      · rw [String.toList_ofList]
        exact .point (hdigits.of_subset (List.take_subset _ _))
          (hdigits.of_subset (List.drop_subset _ _))
      · rw [String.toList_ofList]
        exact .point (s := ['0']) (by decide) ((hzeros _).append hdigits)
  · rw [String.toList_append, String.toList_append, String.toList_ofList]
    refine .append (.append ?_ ?_) (IsNumeralText.toString_nat _)
    · split
      · next first second rest hd =>
        rw [hd] at hdigits
        exact .point (s := [first]) (hdigits.of_subset (by simp)) (hdigits.of_subset (by simp))
      · exact hdigits
    · split
      · exact h.negativeExponentMark
      · exact h.exponentMark

/-- No number is written with characters of markup or of templates. -/
theorem Number.isNumeralText_text (n : Number) : IsNumeralText n.text.toList := by
  cases n with
  | int n => exact IsNumeralText.toString_int n
  | float x =>
    have hlayout : Number.layout.IsNumeral := ⟨by decide, by decide, by decide⟩
    have hsign : IsNumeralText (if x.negative then "-" else "").toList := by
      split <;> decide
    rw [Number.text, FiniteDouble.write]
    split
    · rw [String.toList_append, String.toList_append]
      exact (hsign.append (by decide)).append hlayout.wholeEnding
    · rw [String.toList_append]
      exact hsign.append (Decimal.isNumeralText_write hlayout _)

end LiveMarkup
