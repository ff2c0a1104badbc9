import LiveMarkup.Json.Value

/-!
# When values agree

Whether two values agree is a matter of how their numbers are compared. If each number is like
itself, so is each value (`Value.agree_self`), and if numbers may change sides, so may values
(`Value.agree_comm`). If what agrees with one of two numbers that agree does so with the other one,
the same is true of values (`Value.agree_trans`). If one comparison of numbers implies another one
for the numbers of a value, it does so for what agrees with the value (`Value.agree_of_imp`).
-/

namespace LiveMarkup

namespace Value

variable {eq eq' : Number → Number → Bool} {p : Number → Prop}

mutual

/-- All numbers of a value, at any depth, have a property. -/
def AllNumbers (p : Number → Prop) : Value → Prop
  | number n => p n
  | array items => AllNumbersOfItems p items
  | object fields => AllNumbersOfFields p fields
  | null => True
  | bool _ => True
  | string _ => True

/-- All numbers of the items of an array have a property. -/
def AllNumbersOfItems (p : Number → Prop) : List Value → Prop
  | [] => True
  | v :: rest => AllNumbers p v ∧ AllNumbersOfItems p rest

/-- All numbers of the fields of an object have a property. -/
def AllNumbersOfFields (p : Number → Prop) : List (String × Value) → Prop
  | [] => True
  | (_, v) :: rest => AllNumbers p v ∧ AllNumbersOfFields p rest

end

mutual

/-- Values agree with themselves, if their numbers do. -/
theorem agree_self (h : ∀ n, eq n n = true) : ∀ v, agree eq v v = true
  | null => rfl
  | bool b => beq_self_eq_true b
  | number n => h n
  | string s => beq_self_eq_true s
  | array items => agreeItems_self h items
  | object fields => agreeFields_self h fields

theorem agreeItems_self (h : ∀ n, eq n n = true) : ∀ items, agreeItems eq items items = true
  | [] => rfl
  | v :: rest => by rw [agreeItems, agree_self h v, agreeItems_self h rest, Bool.and_self]

theorem agreeFields_self (h : ∀ n, eq n n = true) : ∀ fields, agreeFields eq fields fields = true
  | [] => rfl
  | (k, v) :: rest => by
    rw [agreeFields, agree_self h v, agreeFields_self h rest, beq_self_eq_true, Bool.and_self,
      Bool.and_self]

end

mutual

/-- It does not matter which value is compared with which, if it does not for numbers. -/
theorem agree_comm (h : ∀ m n, eq m n = eq n m) : ∀ v w, agree eq v w = agree eq w v
  | null, w => by cases w <;> rfl
  | bool b, w => by
    cases w with
    | bool c => exact Bool.beq_comm
    | _ => rfl
  | number m, w => by
    cases w with
    | number n => exact h m n
    | _ => rfl
  | string s, w => by
    cases w with
    | string t => exact BEq.comm
    | _ => rfl
  | array items, w => by
    cases w with
    | array others => exact agreeItems_comm h items others
    | _ => rfl
  | object fields, w => by
    cases w with
    | object others => exact agreeFields_comm h fields others
    | _ => rfl

theorem agreeItems_comm (h : ∀ m n, eq m n = eq n m) :
    ∀ vs ws, agreeItems eq vs ws = agreeItems eq ws vs
  | [], [] => rfl
  | [], _ :: _ => rfl
  | _ :: _, [] => rfl
  | v :: vs, w :: ws => by
    rw [agreeItems, agreeItems, agree_comm h v w, agreeItems_comm h vs ws]

theorem agreeFields_comm (h : ∀ m n, eq m n = eq n m) :
    ∀ vs ws, agreeFields eq vs ws = agreeFields eq ws vs
  | [], [] => rfl
  | [], _ :: _ => rfl
  | _ :: _, [] => rfl
  | (k, v) :: vs, (l, w) :: ws => by
    rw [agreeFields, agreeFields, agree_comm h v w, agreeFields_comm h vs ws,
      BEq.comm (a := k) (b := l)]

end

mutual

/-- Values that agree with the same value agree, if that goes for numbers. -/
theorem agree_trans (h : ∀ l m n, eq l m = true → eq m n = true → eq l n = true) :
    ∀ {u v w : Value}, agree eq u v = true → agree eq v w = true → agree eq u w = true
  | null, v, w, huv, hvw => by
    cases v with
    | null => exact hvw
    | _ => cases huv
  | bool a, v, w, huv, hvw => by
    cases v with
    | bool b => rwa [beq_iff_eq.1 (show (a == b) = true from huv)]
    | _ => cases huv
  | number l, v, w, huv, hvw => by
    cases v with
    | number m =>
      cases w with
      | number n => exact h l m n huv hvw
      | _ => cases hvw
    | _ => cases huv
  | string s, v, w, huv, hvw => by
    cases v with
    | string t => rwa [beq_iff_eq.1 (show (s == t) = true from huv)]
    | _ => cases huv
  | array items, v, w, huv, hvw => by
    cases v with
    | array others =>
      cases w with
      | array rest => exact agreeItems_trans h huv hvw
      | _ => cases hvw
    | _ => cases huv
  | object fields, v, w, huv, hvw => by
    cases v with
    | object others =>
      cases w with
      | object rest => exact agreeFields_trans h huv hvw
      | _ => cases hvw
    | _ => cases huv

theorem agreeItems_trans (h : ∀ l m n, eq l m = true → eq m n = true → eq l n = true) :
    ∀ {us vs ws : List Value}, agreeItems eq us vs = true → agreeItems eq vs ws = true →
      agreeItems eq us ws = true
  | [], [], _, _, hvw => hvw
  | [], _ :: _, _, huv, _ => by cases huv
  | _ :: _, [], _, huv, _ => by cases huv
  | _ :: _, _ :: _, [], _, hvw => by cases hvw
  | u :: us, v :: vs, w :: ws, huv, hvw => by
    rw [agreeItems, Bool.and_eq_true] at huv hvw ⊢
    exact ⟨agree_trans h huv.1 hvw.1, agreeItems_trans h huv.2 hvw.2⟩

theorem agreeFields_trans (h : ∀ l m n, eq l m = true → eq m n = true → eq l n = true) :
    ∀ {us vs ws : List (String × Value)}, agreeFields eq us vs = true →
      agreeFields eq vs ws = true → agreeFields eq us ws = true
  | [], [], _, _, hvw => hvw
  | [], _ :: _, _, huv, _ => by cases huv
  | _ :: _, [], _, huv, _ => by cases huv
  | _ :: _, _ :: _, [], _, hvw => by cases hvw
  | (j, u) :: us, (k, v) :: vs, (l, w) :: ws, huv, hvw => by
    rw [agreeFields, Bool.and_eq_true, Bool.and_eq_true, beq_iff_eq] at huv hvw ⊢
    exact ⟨⟨huv.1.1.trans hvw.1.1, agree_trans h huv.1.2 hvw.1.2⟩,
      agreeFields_trans h huv.2 hvw.2⟩

end

mutual

/-- A finer comparison of the numbers of the second value is a finer comparison of values. -/
theorem agree_of_imp (h : ∀ m n, p n → eq m n = true → eq' m n = true) :
    ∀ {v w : Value}, w.AllNumbers p → agree eq v w = true → agree eq' v w = true
  | null, w, _, ha => by
    cases w with
    | null => rfl
    | _ => cases ha
  | bool b, w, _, ha => by
    cases w with
    | bool c => exact ha
    | _ => cases ha
  | number m, w, hw, ha => by
    cases w with
    | number n => exact h m n hw ha
    | _ => cases ha
  | string s, w, _, ha => by
    cases w with
    | string t => exact ha
    | _ => cases ha
  | array items, w, hw, ha => by
    cases w with
    | array others => exact agreeItems_of_imp h hw ha
    | _ => cases ha
  | object fields, w, hw, ha => by
    cases w with
    | object others => exact agreeFields_of_imp h hw ha
    | _ => cases ha

theorem agreeItems_of_imp (h : ∀ m n, p n → eq m n = true → eq' m n = true) :
    ∀ {vs ws : List Value}, AllNumbersOfItems p ws → agreeItems eq vs ws = true →
      agreeItems eq' vs ws = true
  | [], [], _, _ => rfl
  | [], _ :: _, _, ha => by cases ha
  | _ :: _, [], _, ha => by cases ha
  | v :: vs, w :: ws, hw, ha => by
    rw [agreeItems, Bool.and_eq_true] at ha ⊢
    exact ⟨agree_of_imp h hw.1 ha.1, agreeItems_of_imp h hw.2 ha.2⟩

theorem agreeFields_of_imp (h : ∀ m n, p n → eq m n = true → eq' m n = true) :
    ∀ {vs ws : List (String × Value)}, AllNumbersOfFields p ws → agreeFields eq vs ws = true →
      agreeFields eq' vs ws = true
  | [], [], _, _ => rfl
  | [], _ :: _, _, ha => by cases ha
  | _ :: _, [], _, ha => by cases ha
  | (k, v) :: vs, (l, w) :: ws, hw, ha => by
    rw [agreeFields, Bool.and_eq_true, Bool.and_eq_true] at ha ⊢
    exact ⟨⟨ha.1.1, agree_of_imp h hw.1 ha.1.2⟩, agreeFields_of_imp h hw.2 ha.2⟩

end

end Value

end LiveMarkup
