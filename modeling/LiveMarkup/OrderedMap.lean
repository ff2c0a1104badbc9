/-!
# Maps in the order of insertion

The entries of a map stay in the order in which their keys came first. A new value under an old
key takes the place of the old one.
-/

namespace LiveMarkup

/-- The entries of a map in the order of insertion, each key once. -/
abbrev OrderedMap (κ α : Type) := List (κ × α)

namespace OrderedMap

variable {κ α : Type} [DecidableEq κ]

/-- The value under a key. -/
def find? (m : OrderedMap κ α) (key : κ) : Option α :=
  match m with
  | [] => none
  | (k, v) :: rest => if k = key then some v else find? rest key

/-- The map with a value put under a key. -/
def put (m : OrderedMap κ α) (key : κ) (value : α) : OrderedMap κ α :=
  match m with
  | [] => [(key, value)]
  | (k, v) :: rest => if k = key then (key, value) :: rest else (k, v) :: put rest key value

/-- The map without a key. The other entries stay in order. -/
def erase (m : OrderedMap κ α) (key : κ) : OrderedMap κ α :=
  match m with
  | [] => []
  | (k, v) :: rest => if k = key then rest else (k, v) :: erase rest key

/-- Whether a key is there. -/
def contains (m : OrderedMap κ α) (key : κ) : Bool := (find? m key).isSome

theorem find?_put (m : OrderedMap κ α) (key other : κ) (value : α) :
    find? (put m key value) other = if key = other then some value else find? m other := by
  induction m with
  | nil => simp [put, find?]
  | cons entry rest ih =>
    obtain ⟨k, v⟩ := entry
    rw [put]
    split
    · next h =>
      subst h
      rw [find?, find?]
      split <;> rfl
    · next h =>
      rw [find?, find?, ih]
      split
      · next hk =>
        subst hk
        rw [if_neg (fun e => h e.symm)]
      · rfl

end OrderedMap

end LiveMarkup
