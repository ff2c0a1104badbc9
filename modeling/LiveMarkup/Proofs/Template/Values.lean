import LiveMarkup.Proofs.Number.Written
import LiveMarkup.Proofs.Template.Braces

/-!
# Values without braces

The text of a value has no braces if none of the strings inside it has (`braceless_sanitize`).
Keys do not matter, since the fields of an object are not shown.
-/

namespace LiveMarkup

namespace Value

mutual

/-- All strings of a value, at any depth, have a property. -/
def AllStrings (p : String → Prop) : Value → Prop
  | string s => p s
  | array items => AllStringsOfItems p items
  | object fields => AllStringsOfFields p fields
  | null => True
  | bool _ => True
  | number _ => True

/-- All strings of the items of an array have a property. -/
def AllStringsOfItems (p : String → Prop) : List Value → Prop
  | [] => True
  | v :: rest => AllStrings p v ∧ AllStringsOfItems p rest

/-- All strings of the fields of an object have a property. -/
def AllStringsOfFields (p : String → Prop) : List (String × Value) → Prop
  | [] => True
  | (_, v) :: rest => AllStrings p v ∧ AllStringsOfFields p rest

end

variable {p : String → Prop} {v : Value} {items : List Value} {state : Fields}

theorem AllStringsOfItems.of_mem (h : AllStringsOfItems p items) (hv : v ∈ items) :
    AllStrings p v := by
  induction items with
  | nil => cases hv
  | cons w rest ih =>
    rw [AllStringsOfItems] at h
    rcases List.mem_cons.1 hv with rfl | hv
    · exact h.1
    · exact ih h.2 hv

theorem AllStringsOfFields.of_find? {key : String} (h : AllStringsOfFields p state)
    (hv : state.find? key = some v) : AllStrings p v := by
  induction state with
  | nil => cases hv
  | cons entry rest ih =>
    obtain ⟨k, w⟩ := entry
    rw [AllStringsOfFields] at h
    rw [Fields.find?] at hv
    split at hv
    · cases hv
      exact h.1
    · exact ih h.2 hv

end Value

namespace Template

/-- No string inside the value has a brace. -/
abbrev BracelessValue (v : Value) : Prop := v.AllStrings fun s => Braceless s.toList

/-- No string inside the state has a brace. -/
abbrev BracelessState (state : Fields) : Prop :=
  Value.AllStringsOfFields (fun s => Braceless s.toList) state

theorem braceless_number (n : Number) : Braceless n.text.toList :=
  .of_forall (IsNumeralText.iff_forall.1 n.isNumeralText_text) (by decide) (by decide)

/-- Escaping writes references, which have no braces. -/
theorem braceless_escape {text : List Char} (h : Braceless text) : Braceless (escape text) := by
  rw [escape_eq_flatMap]
  refine .flatMap fun c hc => ?_
  have ho : c ≠ '\x7b' := fun e => h.1 (e ▸ hc)
  have hd : c ≠ '\x7d' := fun e => h.2 (e ▸ hc)
  rw [escapeChar.eq_def]
  split
  · decide
  · decide
  · decide
  · decide
  · decide
  · exact ⟨by simpa using ho.symm, by simpa using hd.symm⟩

mutual

theorem braceless_itemText : ∀ (v : Value), BracelessValue v → Braceless (itemText v)
  | .string s, h => by rwa [itemText]
  | .null, _ => by rw [itemText]; exact .nil
  | .bool b, _ => by rw [itemText]; cases b <;> decide
  | .number n, _ => by rw [itemText]; exact braceless_number n
  | .array items, h => by rw [itemText]; exact braceless_joinedText items h
  | .object fields, _ => by rw [itemText]; decide

theorem braceless_joinedText : ∀ (items : List Value),
    Value.AllStringsOfItems (fun s => Braceless s.toList) items → Braceless (joinedText items)
  | [], _ => by rw [joinedText]; exact .nil
  | [v], h => by rw [joinedText]; exact braceless_itemText v h.1
  | v :: w :: rest, h => by
    rw [joinedText]
    exact (braceless_itemText v h.1).append
      (.append (s := [',']) (by decide) (braceless_joinedText (w :: rest) h.2))

end

/-- No value puts braces into a template, unless they are in its own strings. -/
theorem braceless_sanitize {v : Value} (h : BracelessValue v) : Braceless (sanitize v) := by
  cases v with
  | string s => exact braceless_escape h
  | null => decide
  | bool b => cases b <;> decide
  | number n => exact braceless_number n
  | array items => exact braceless_escape (braceless_joinedText items h)
  | object fields => exact (by decide : Braceless objectText)

end Template

end LiveMarkup
