import LiveMarkup.Json.Value
import Mathlib.Algebra.Group.Nat.Defs

/-!
# Integers and the doubles nearest to them

An integer below `2⁵³` in magnitude is a double itself (`Double.ofInt_of_lt`), and a greater one is
rounded to a double that is not below `2⁵³` either (`Double.le_units_of_ofInt`). So the nearest
doubles tell a number below `2⁵³` from all others (`Number.units_eq_of_same`), but not the greater
integers from each other.

Doubles that are the same may change sides, and what is the same as one of them is the same as the
other one (`Double.same_comm`, `Double.same_trans`). Only not-a-number differs from itself, and no
number is nearest to it.
-/

namespace LiveMarkup

theorem le_roundHalfEven (num den : Nat) : num / den ≤ roundHalfEven num den := by
  simp only [roundHalfEven]
  split
  · exact Nat.le_refl _
  · split
    · exact Nat.le_succ _
    · split
      · exact Nat.le_refl _
      · exact Nat.le_succ _

theorem roundHalfEven_mul_cancel {num den : Nat} (hpos : 0 < den) (h : den ∣ num) :
    roundHalfEven num den * den = num := by
  simp only [roundHalfEven]
  rw [Nat.mod_eq_zero_of_dvd h, if_pos (by omega), Nat.div_mul_cancel h]

namespace FiniteDouble

theorem exists_unitsPerOne_eq : ∃ k l, unitsPerOne = 2 ^ k ∧ overflow = 2 ^ l ∧ 53 + k ≤ l :=
  ⟨1074, 2098, by decide +kernel, by decide +kernel, by decide⟩

theorem unitsPerOne_pos : 0 < unitsPerOne := by
  obtain ⟨k, -, hk, -⟩ := exists_unitsPerOne_eq
  rw [hk]
  exact Nat.two_pow_pos k

theorem lastPlace_pos (units : Nat) : 0 < lastPlace units := Nat.two_pow_pos _

/-- The last place of a small integer is not above one. -/
theorem lastPlace_dvd {n k : Nat} (h : n < 2 ^ 53) : lastPlace (n * 2 ^ k) ∣ n * 2 ^ k := by
  rcases Nat.eq_zero_or_pos n with rfl | hpos
  · rw [Nat.zero_mul]
    exact Nat.dvd_zero _
  have hlt : n * 2 ^ k < 2 ^ (53 + k) := by
    rw [Nat.pow_add]
    exact Nat.mul_lt_mul_of_pos_right h (Nat.two_pow_pos k)
  have hlog : (n * 2 ^ k).log2 < 53 + k :=
    (Nat.log2_lt (Nat.ne_of_gt (Nat.mul_pos hpos (Nat.two_pow_pos k)))).2 hlt
  have hplace : lastPlace (n * 2 ^ k) ∣ 2 ^ k := Nat.pow_dvd_pow 2 (by omega)
  exact Nat.dvd_trans hplace (Nat.dvd_mul_left _ n)

/-- A power of two that is not above a magnitude is not above its rounding to the last place. -/
theorem le_roundHalfEven_lastPlace {units e : Nat} (he : 52 ≤ e) (h : 2 ^ e ≤ units) :
    2 ^ e ≤ roundHalfEven units (lastPlace units) * lastPlace units := by
  have hne : units ≠ 0 := Nat.ne_of_gt (Nat.lt_of_lt_of_le (Nat.two_pow_pos e) h)
  have hlog : e ≤ units.log2 := (Nat.le_log2 hne).2 h
  have htop : 2 ^ 52 * lastPlace units = 2 ^ units.log2 := by
    change 2 ^ 52 * 2 ^ (units.log2 - 52) = 2 ^ units.log2
    rw [← Nat.pow_add, Nat.add_sub_cancel' (Nat.le_trans he hlog)]
  have hquot : 2 ^ 52 ≤ units / lastPlace units := by
    rw [Nat.le_div_iff_mul_le (lastPlace_pos units), htop]
    exact Nat.log2_self_le hne
  calc 2 ^ e ≤ 2 ^ units.log2 := Nat.pow_le_pow_right (by decide) hlog
    _ = 2 ^ 52 * lastPlace units := htop.symm
    _ ≤ roundHalfEven units (lastPlace units) * lastPlace units :=
      Nat.mul_le_mul_right _ (Nat.le_trans hquot (le_roundHalfEven _ _))

theorem natAbs_value (x : FiniteDouble) : x.value.natAbs = x.units := by
  rw [value]
  split
  · rw [Int.natAbs_neg, Int.natAbs_natCast]
  · exact Int.natAbs_natCast _

theorem compare_swap (x y : FiniteDouble) : y.compare x = (x.compare y).swap :=
  (Int.compare_swap x.value y.value).symm

theorem same_comm (x y : FiniteDouble) : x.same y = y.same x := BEq.comm

end FiniteDouble

namespace Double

open FiniteDouble

theorem ofUnitsRatio_one (negative : Bool) (units : Nat) : ofUnitsRatio negative units 1 =
    if roundHalfEven units (lastPlace units) * lastPlace units < overflow then
      .finite ⟨negative, roundHalfEven units (lastPlace units) * lastPlace units⟩
    else .infinite negative := by
  rw [ofUnitsRatio, Nat.div_one, Nat.one_mul]

/-- A small integer is a double. -/
theorem ofInt_of_lt {n : Int} (h : n.natAbs < 2 ^ 53) :
    ofInt n = .finite ⟨decide (n < 0), n.natAbs * unitsPerOne⟩ := by
  obtain ⟨k, l, hunit, hover, hl⟩ := exists_unitsPerOne_eq
  have hlt : n.natAbs * 2 ^ k < overflow :=
    calc n.natAbs * 2 ^ k < 2 ^ 53 * 2 ^ k := Nat.mul_lt_mul_of_pos_right h (Nat.two_pow_pos k)
      _ = 2 ^ (53 + k) := (Nat.pow_add 2 53 k).symm
      _ ≤ 2 ^ l := Nat.pow_le_pow_right (by decide) hl
      _ = overflow := hover.symm
  rw [ofInt, ofRatio, ofUnitsRatio_one, hunit,
    roundHalfEven_mul_cancel (lastPlace_pos _) (lastPlace_dvd h), if_pos hlt]

/-- A greater integer is rounded to a double that is not small. -/
theorem le_units_of_ofInt {n : Int} {x : FiniteDouble} (h : 2 ^ 53 ≤ n.natAbs)
    (hx : ofInt n = .finite x) : 2 ^ 53 * unitsPerOne ≤ x.units := by
  obtain ⟨k, -, hunit, -⟩ := exists_unitsPerOne_eq
  have hle : 2 ^ (53 + k) ≤ n.natAbs * 2 ^ k := by
    rw [Nat.pow_add]
    exact Nat.mul_le_mul_right _ h
  rw [ofInt, ofRatio, ofUnitsRatio_one, hunit] at hx
  rw [hunit, ← Nat.pow_add]
  split at hx
  · cases hx
    exact le_roundHalfEven_lastPlace (by omega) hle
  · cases hx

theorem ofUnitsRatio_ne_nan (negative : Bool) (num den : Nat) :
    ofUnitsRatio negative num den ≠ .nan := by
  simp only [ofUnitsRatio]
  split <;> nofun

theorem same_finite_iff {x y : FiniteDouble} :
    (finite x).same (finite y) = true ↔ x.value = y.value := by
  rw [same, compare?, beq_iff_eq, Option.some_inj, FiniteDouble.compare, Int.compare_eq_eq]

theorem same_self {x : Double} (h : x ≠ .nan) : x.same x = true := by
  cases x with
  | nan => exact absurd rfl h
  | infinite negative => cases negative <;> rfl
  | finite x => exact same_finite_iff.2 rfl

/-- What is the same as a finite double is one, too. -/
theorem exists_finite_of_same {x : Double} {y : FiniteDouble} (h : x.same (.finite y) = true) :
    ∃ z, x = .finite z ∧ z.value = y.value := by
  cases x with
  | nan => cases h
  | infinite negative => cases negative <;> cases h
  | finite z => exact ⟨z, rfl, same_finite_iff.1 h⟩

/-- An infinity is the same as itself only. -/
theorem infinite_same_iff {negative : Bool} {x : Double} :
    (infinite negative).same x = true ↔ x = .infinite negative := by
  cases x with
  | nan => exact ⟨nofun, nofun⟩
  | infinite b => cases negative <;> cases b <;> decide
  | finite x => cases negative <;> exact ⟨nofun, nofun⟩

/-- Turned around, the order of two numbers is the opposite one, and what is not comparable stays
so. -/
theorem compare?_swap (x y : Double) : compare? y x = (compare? x y).map Ordering.swap := by
  cases x with
  | nan => cases y <;> rfl
  | infinite a =>
    cases y with
    | nan => rfl
    | infinite b => cases a <;> cases b <;> rfl
    | finite y => cases a <;> rfl
  | finite x =>
    cases y with
    | nan => rfl
    | infinite b => cases b <;> rfl
    | finite y => exact congrArg some (x.compare_swap y)

theorem same_comm (x y : Double) : x.same y = y.same x := by
  rw [same, same, compare?_swap x y]
  cases compare? x y with
  | none => rfl
  | some o => cases o <;> rfl

theorem same_trans {x y z : Double} (hxy : x.same y = true) (hyz : y.same z = true) :
    x.same z = true := by
  cases y with
  | nan => cases x <;> cases hxy
  | infinite negative => rwa [infinite_same_iff.1 hyz]
  | finite y =>
    obtain ⟨x, rfl, hx⟩ := exists_finite_of_same hxy
    obtain ⟨z, rfl, hz⟩ := exists_finite_of_same ((same_comm _ _).trans hyz)
    exact same_finite_iff.2 (hx.trans hz.symm)

end Double

namespace Number

theorem same_comm (m n : Number) : m.same n = n.same m := by
  cases m with
  | int m =>
    cases n with
    | int n => exact BEq.comm
    | float y => rfl
  | float x =>
    cases n with
    | int n => rfl
    | float y => exact x.same_comm y

open FiniteDouble

/-- The exact value, in units of the least positive double. -/
def units : Number → Int
  | int n => n * unitsPerOne
  | float x => x.value

/-- The number lies strictly between `-2⁵³` and `2⁵³`. -/
def IsSmall (n : Number) : Prop := n.units.natAbs < 2 ^ 53 * unitsPerOne

variable {m n : Number}

theorem isSmall_int_iff {n : Int} : (int n).IsSmall ↔ n.natAbs < 2 ^ 53 := by
  rw [IsSmall, units, Int.natAbs_mul, Int.natAbs_natCast]
  exact Nat.mul_lt_mul_right unitsPerOne_pos

theorem toDouble_ne_nan (n : Number) : n.toDouble ≠ .nan := by
  cases n with
  | int n =>
    rw [toDouble, Double.ofInt, Double.ofRatio]
    exact Double.ofUnitsRatio_ne_nan _ _ _
  | float x => nofun

/-- A small number is a double. -/
theorem IsSmall.toDouble_eq (h : n.IsSmall) : ∃ x, n.toDouble = .finite x ∧ x.value = n.units := by
  cases n with
  | float x => exact ⟨x, rfl, rfl⟩
  | int n =>
    refine ⟨_, Double.ofInt_of_lt (isSmall_int_iff.1 h), ?_⟩
    rw [value, units]
    split
    · next hneg =>
      have hneg : n < 0 := of_decide_eq_true hneg
      rw [Int.natCast_mul, ← Int.neg_mul, Int.ofNat_natAbs_of_nonpos (Int.le_of_lt hneg),
        Int.neg_neg]
    · next hpos =>
      have hpos : 0 ≤ n := by simpa using hpos
      rw [Int.natCast_mul, Int.natAbs_of_nonneg hpos]

/-- A number that is rounded to a small one is that number. -/
theorem units_eq_of_toDouble_eq {x : FiniteDouble} (h : n.toDouble = .finite x)
    (hx : x.units < 2 ^ 53 * unitsPerOne) : n.units = x.value := by
  cases n with
  | float y =>
    cases h
    rfl
  | int n =>
    have hsmall : (int n).IsSmall := by
      rw [isSmall_int_iff, ← Nat.not_le]
      exact fun hle => Nat.not_le.2 hx (Double.le_units_of_ofInt hle h)
    obtain ⟨y, hy, hvalue⟩ := hsmall.toDouble_eq
    cases h.symm.trans hy
    exact hvalue.symm

/-- Numbers whose nearest doubles are the same are equal, if one of them is small. -/
theorem units_eq_of_same (h : m.toDouble.same n.toDouble = true) (hn : n.IsSmall) :
    m.units = n.units := by
  obtain ⟨x, hx, hvalue⟩ := hn.toDouble_eq
  obtain ⟨y, hy, hyx⟩ := Double.exists_finite_of_same (hx ▸ h)
  have hsmall : y.units < 2 ^ 53 * unitsPerOne := by
    rw [← natAbs_value, hyx, hvalue]
    exact hn
  rw [units_eq_of_toDouble_eq hy hsmall, hyx, hvalue]

end Number

end LiveMarkup
