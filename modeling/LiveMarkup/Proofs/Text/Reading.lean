import LiveMarkup.Text.Reading

/-!
# Readings without bounds

The answer of a reader says that the rest is not longer than the text. `Reading.plain` and
`Scan.plain` leave that out, so that answers on different texts can be compared. For each way of
going on with an answer there is a lemma that says what it means for the plain one.
-/

namespace LiveMarkup

variable {ε α β : Type} {s rest : List Char} {c : Char} {p : Char → Bool}

/-- The value and the rest of a reading. -/
def Reading.plain (r : Reading ε α s) : Except ε (α × List Char) :=
  match r with
  | .ok (a, t) => .ok (a, t.1)
  | .error e => .error e

/-- The value and the rest of a scan. -/
def Scan.plain (r : Scan ε α s) : Except ε (α × List Char) :=
  match r with
  | .ok (a, t) => .ok (a, t.1)
  | .error e => .error e

namespace Reading

/-- What is read is not empty, so that a reader can go on with the rest. -/
theorem length_of_plain {r : Reading ε α s} {a : α} (h : r.plain = .ok (a, rest)) :
    rest.length < s.length := by
  rcases r with f | ⟨b, t⟩
  · cases h
  · cases h
    exact t.2

/-- A plain result comes from a result that knows that its rest is shorter. -/
theorem exists_of_plain {r : Reading ε α s} {a : α} (h : r.plain = .ok (a, rest)) :
    ∃ t : Shorter s, r = .ok (a, t) ∧ t.1 = rest := by
  rcases r with f | ⟨b, t⟩
  · cases h
  · cases h
    exact ⟨t, rfl, rfl⟩

/-- To read from a longer text does not change what is read. -/
theorem plain_cons (r : Reading ε α s) : (r.cons (c := c)).plain = r.plain := by
  rcases r with f | ⟨b, t⟩
  · rfl
  · rfl

theorem plain_past (rest : Rest s) (r : Reading ε α rest.1) : (r.past rest).plain = r.plain := by
  rcases r with e | ⟨a, t⟩
  · rfl
  · rfl

theorem plain_toScan (r : Reading ε α s) : r.toScan.plain = r.plain := by
  rcases r with f | ⟨b, t⟩
  · rfl
  · rfl

/-- Two readers one after the other, without the proof that the second one begins further on. -/
theorem plain_andThen (r : Reading ε α s) (f : α → (t : List Char) → Scan ε β t) :
    (r.andThen fun a t _ => f a t).plain =
      match r.plain with
      | .ok (a, t) => (f a t).plain
      | .error e => .error e := by
  rcases r with e | ⟨a, t⟩
  · rfl
  · simp only [andThen, plain]
    rcases f a t.1 with e | ⟨b, rest⟩
    · rfl
    · rfl

theorem plain_map_eq_ok_iff {f : α → β} {r : Reading ε α s} {b : β} :
    (r.map f).plain = .ok (b, rest) ↔ ∃ a, r.plain = .ok (a, rest) ∧ b = f a := by
  rcases r with e | ⟨a, t⟩
  · constructor
    · rintro ⟨⟩
    · rintro ⟨_, ⟨⟩, -⟩
  · constructor
    · rintro ⟨⟩
      exact ⟨a, rfl, rfl⟩
    · rintro ⟨_, ⟨⟩, rfl⟩
      rfl

end Reading

namespace Scan

theorem plain_past (rest : Rest s) (r : Scan ε α rest.1) : (r.past rest).plain = r.plain := by
  rcases r with f | ⟨b, t⟩
  · rfl
  · rfl

theorem plain_behind (rest : Shorter s) (r : Scan ε α rest.1) :
    (r.behind rest).plain = r.plain := by
  rcases r with f | ⟨b, t⟩
  · rfl
  · rfl

end Scan

theorem dropWhile_of_afterRun? {rest : Shorter s} (h : afterRun? p s = some (c, rest)) :
    s.dropWhile p = c :: rest.1 := by
  rw [afterRun?] at h
  split at h
  · cases h
  · next hd =>
    cases h
    exact congrArg Subtype.val hd

theorem dropWhile_of_afterRun?_eq_none (h : afterRun? p s = none) : s.dropWhile p = [] := by
  rw [afterRun?] at h
  split at h
  · next hd => exact congrArg Subtype.val hd
  · cases h

theorem exists_afterRun?_eq (h : s.dropWhile p = c :: rest) :
    ∃ t : Shorter s, afterRun? p s = some (c, t) ∧ t.1 = rest := by
  cases hrun : afterRun? p s with
  | none =>
    rw [dropWhile_of_afterRun?_eq_none hrun] at h
    cases h
  | some found =>
    obtain ⟨d, t⟩ := found
    rw [dropWhile_of_afterRun? hrun] at h
    cases h
    exact ⟨t, rfl, rfl⟩

end LiveMarkup
