/-!
# Searching a text

* `stripStart? start text` is the text behind `start`, if the text begins with it.
* `splitOnce? mark text` splits a text around the first occurrence of a mark.

Both give back the text when they are put together again (`eq_append_of_stripStart?`,
`eq_append_of_splitOnce?`).
-/

namespace LiveMarkup

/-- The text behind `start`, if the text begins with it. -/
def stripStart? (start text : List Char) : Option (List Char) :=
  match start, text with
  | [], text => some text
  | _ :: _, [] => none
  | s :: start, c :: text => if s = c then stripStart? start text else none

/-- The texts before and behind the first occurrence of a mark. -/
def splitOnce? (mark text : List Char) : Option (List Char × List Char) :=
  match stripStart? mark text with
  | some behind => some ([], behind)
  | none =>
    match text with
    | [] => none
    | c :: rest =>
      match splitOnce? mark rest with
      | some (before, behind) => some (c :: before, behind)
      | none => none

theorem eq_append_of_stripStart? {start text rest : List Char}
    (h : stripStart? start text = some rest) : text = start ++ rest := by
  induction start generalizing text with
  | nil => simpa [stripStart?] using h
  | cons s start ih =>
    cases text with
    | nil => simp [stripStart?] at h
    | cons c text =>
      simp only [stripStart?] at h
      split at h
      · next hc => rw [hc, ih h]; rfl
      · cases h

@[simp] theorem stripStart?_append (start rest : List Char) :
    stripStart? start (start ++ rest) = some rest := by
  induction start with
  | nil => simp [stripStart?]
  | cons s start ih => simp [stripStart?, ih]

/-- What is before the first mark, the mark and what is behind it make up the text. -/
theorem eq_append_of_splitOnce? {mark text before behind : List Char}
    (h : splitOnce? mark text = some (before, behind)) : text = before ++ mark ++ behind := by
  induction text generalizing before with
  | nil =>
    rw [splitOnce?] at h
    split at h
    · next hs => cases h; simpa using eq_append_of_stripStart? hs
    · simp at h
  | cons c rest ih =>
    rw [splitOnce?] at h
    split at h
    · next hs => cases h; simpa using eq_append_of_stripStart? hs
    · split at h
      · next hr => cases h; simp [ih hr]
      · cases h

/-- What is left behind a start is shorter by the start, which is what readers end by. -/
theorem length_of_stripStart? {start text rest : List Char}
    (h : stripStart? start text = some rest) : rest.length + start.length = text.length := by
  rw [eq_append_of_stripStart? h, List.length_append, Nat.add_comm]

theorem length_of_splitOnce? {mark text before behind : List Char}
    (h : splitOnce? mark text = some (before, behind)) :
    before.length + mark.length + behind.length = text.length := by
  rw [eq_append_of_splitOnce? h, List.length_append, List.length_append]

end LiveMarkup
