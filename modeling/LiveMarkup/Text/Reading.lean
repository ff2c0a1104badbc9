/-!
# Readers of a text

A reader takes a text as a list of characters and answers with what it read and with what it
leaves. That the rest is not longer, or shorter, is part of the answer, so that readers may call
one another recursively.

* `Rest` is what is left of a text, and `Shorter` what is left of it when something was taken.
* `Reading` is the answer of a reader that takes at least one character, `Scan` that of one that may
  take none. `Reading.andThen` and `Scan.andThen` go on with the rest; `cons` and `past` give the
  answer of a reader that began further on.
-/

namespace LiveMarkup

/-- What is left of a text, which may be all of it. -/
abbrev Rest (text : List Char) := { rest : List Char // rest.length ≤ text.length }

/-- What is left of a text of which at least one character was taken. -/
abbrev Shorter (text : List Char) := { rest : List Char // rest.length < text.length }

/-- The answer of a reader that takes at least one character of `text`. -/
abbrev Reading (ε α : Type) (text : List Char) := Except ε (α × Shorter text)

/-- The answer of a reader that may leave all of `text`. -/
abbrev Scan (ε α : Type) (text : List Char) := Except ε (α × Rest text)

theorem length_dropWhile_le {α : Type} (p : α → Bool) (l : List α) :
    (l.dropWhile p).length ≤ l.length := by
  induction l with
  | nil => simp
  | cons a rest ih =>
    rw [List.dropWhile_cons]
    split
    · simp only [List.length_cons]
      omega
    · simp

/-! ## What is left -/

namespace Rest

variable {s : List Char} {c : Char}

/-- All of a text. -/
def all (s : List Char) : Rest s := ⟨s, Nat.le_refl _⟩

/-- What is left behind the longest run of characters with a property. -/
def dropWhile (p : Char → Bool) (s : List Char) : Rest s := ⟨s.dropWhile p, length_dropWhile_le p s⟩

/-- What is left behind the first characters. -/
def drop (n : Nat) (s : List Char) : Rest s := ⟨s.drop n, by simp⟩

/-- The same, seen from a text with one more character in front. -/
def cons (r : Rest s) : Rest (c :: s) := ⟨r.1, Nat.le_succ_of_le r.2⟩

/-- What is left behind a first character. -/
def behind (r : Rest s) : Shorter (c :: s) := ⟨r.1, Nat.lt_succ_of_le r.2⟩

/-- What is left of what is left. -/
def trans (r : Rest s) (q : Rest r.1) : Rest s := ⟨q.1, Nat.le_trans q.2 r.2⟩

end Rest

namespace Shorter

variable {s : List Char} {c : Char}

/-- The text behind a first character. -/
def tail : Shorter (c :: s) := ⟨s, Nat.lt_succ_self _⟩

/-- The same, seen from a text with one more character in front. -/
def cons (r : Shorter s) : Shorter (c :: s) := ⟨r.1, Nat.lt_succ_of_lt r.2⟩

/-- The same as what is left of a text of which nothing may have been taken. -/
def toRest (r : Shorter s) : Rest s := ⟨r.1, Nat.le_of_lt r.2⟩

/-- What is left, with the character in front of it. -/
def restore (c : Char) (r : Shorter s) : Rest s := ⟨c :: r.1, r.2⟩

/-- What is left of what is left. -/
def trans (r : Shorter s) (q : Rest r.1) : Shorter s := ⟨q.1, Nat.lt_of_le_of_lt q.2 r.2⟩

end Shorter

/-- The first character behind the longest run of characters with a property, and what is left
behind it. -/
def afterRun? (p : Char → Bool) (s : List Char) : Option (Char × Shorter s) :=
  match Rest.dropWhile p s with
  | ⟨[], _⟩ => none
  | ⟨c :: rest, short⟩ => some (c, ⟨rest, short⟩)

/-! ## Readers that take something -/

namespace Reading

variable {ε α β : Type} {s : List Char} {c : Char}

/-- The answer seen as one that may leave everything. -/
def toScan (r : Reading ε α s) : Scan ε α s :=
  match r with
  | .ok (a, rest) => .ok (a, rest.toRest)
  | .error e => .error e

/-- Goes on with what is left. -/
def andThen (r : Reading ε α s)
    (f : α → (t : List Char) → t.length < s.length → Scan ε β t) : Reading ε β s :=
  match r with
  | .ok (a, t) =>
    match f a t.1 t.2 with
    | .ok (b, rest) => .ok (b, t.trans rest)
    | .error e => .error e
  | .error e => .error e

/-- The same answer on a text with one more character in front. -/
def cons (r : Reading ε α s) : Reading ε α (c :: s) :=
  match r with
  | .ok (a, rest) => .ok (a, rest.cons)
  | .error e => .error e

/-- The same answer on the whole text of which a rest was read. -/
def past (rest : Rest s) (r : Reading ε α rest.1) : Reading ε α s :=
  match r with
  | .ok (a, t) => .ok (a, ⟨t.1, Nat.lt_of_lt_of_le t.2 rest.2⟩)
  | .error e => .error e

/-- The answer with another value. -/
def map (f : α → β) (r : Reading ε α s) : Reading ε β s :=
  match r with
  | .ok (a, rest) => .ok (f a, rest)
  | .error e => .error e

/-- The answer with a value made of the one that was read, which may be refused. -/
def refine (f : α → Except ε β) (r : Reading ε α s) : Reading ε β s :=
  match r with
  | .ok (a, rest) =>
    match f a with
    | .ok b => .ok (b, rest)
    | .error e => .error e
  | .error e => .error e

/-- An answer that leaves the tail of a text. -/
def tail (a : α) (c : Char) (rest : List Char) : Reading ε α (c :: rest) := .ok (a, .tail)

end Reading

/-! ## Readers that may take nothing -/

namespace Scan

variable {ε α β : Type} {s : List Char} {c : Char}

/-- An answer that leaves everything. -/
def pure (a : α) (s : List Char) : Scan ε α s := .ok (a, .all s)

/-- Goes on with what is left. -/
def andThen (r : Scan ε α s)
    (f : α → (t : List Char) → t.length ≤ s.length → Scan ε β t) : Scan ε β s :=
  match r with
  | .ok (a, t) =>
    match f a t.1 t.2 with
    | .ok (b, rest) => .ok (b, t.trans rest)
    | .error e => .error e
  | .error e => .error e

/-- The same answer on a text with one more character in front. -/
def cons (r : Scan ε α s) : Scan ε α (c :: s) :=
  match r with
  | .ok (a, rest) => .ok (a, rest.cons)
  | .error e => .error e

/-- The same answer on the whole text of which a rest was read. -/
def past (rest : Rest s) (r : Scan ε α rest.1) : Scan ε α s :=
  match r with
  | .ok (a, t) => .ok (a, rest.trans t)
  | .error e => .error e

/-- The same answer on the whole text of which something was taken before. -/
def behind (rest : Shorter s) (r : Scan ε α rest.1) : Reading ε α s :=
  match r with
  | .ok (a, t) => .ok (a, rest.trans t)
  | .error e => .error e

end Scan

end LiveMarkup
