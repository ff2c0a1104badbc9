import LiveMarkup.Number.Double

/-!
# JSON values

A value is null, a boolean, a number, a string, an array or an object. A number is either an
integer or a finite double, and the two kinds stay apart: `1` and `1.0` are different values with
different texts. The fields of an object are kept in the order of their keys, by code points, each
key once; this order is what a reader of the object sees.

* `Value.agree` compares two values, given how numbers are compared: `Value.same` keeps the two
  kinds of numbers apart, other comparisons need not.
* `Value.depth` counts how deep arrays and objects are nested.
* `Fields.find?`, `Fields.insert`, `Fields.erase` and `Fields.merge` are the operations on the
  fields of an object.
-/

namespace LiveMarkup

/-- A JSON number. -/
inductive Number
  /-- An integer that is written without a point or exponent. -/
  | int (n : Int)
  | float (x : FiniteDouble)
  deriving DecidableEq, Repr, Inhabited

namespace Number

/-- The nearest double. -/
def toDouble : Number → Double
  | int n => Double.ofInt n
  | float x => .finite x

/-- Equal as JSON values: of one kind and numerically equal. -/
def same : Number → Number → Bool
  | int m, int n => m == n
  | float x, float y => x.same y
  | _, _ => false

end Number

/-- A JSON value. -/
inductive Value
  | null
  | bool (b : Bool)
  | number (n : Number)
  | string (s : String)
  | array (items : List Value)
  | object (fields : List (String × Value))
  deriving Repr, Inhabited

/-- The fields of an object, in the order of their keys. -/
abbrev Fields := List (String × Value)

namespace Value

mutual

/-- Whether two values agree when their numbers are compared by `eq`: they have one shape, and
agree in their keys, strings, booleans and numbers. -/
def agree (eq : Number → Number → Bool) : Value → Value → Bool
  | null, null => true
  | bool a, bool b => a == b
  | number m, number n => eq m n
  | string s, string t => s == t
  | array xs, array ys => agreeItems eq xs ys
  | object xs, object ys => agreeFields eq xs ys
  | _, _ => false

/-- `Value.agree` for the items of two arrays. -/
def agreeItems (eq : Number → Number → Bool) : List Value → List Value → Bool
  | [], [] => true
  | x :: xs, y :: ys => agree eq x y && agreeItems eq xs ys
  | _, _ => false

/-- `Value.agree` for the fields of two objects, which are in one order. -/
def agreeFields (eq : Number → Number → Bool) :
    List (String × Value) → List (String × Value) → Bool
  | [], [] => true
  | (k, x) :: xs, (l, y) :: ys => k == l && agree eq x y && agreeFields eq xs ys
  | _, _ => false

end

/-- Equality of JSON values. -/
def same (v w : Value) : Bool := agree Number.same v w

mutual

/-- How deep arrays and objects are nested: a scalar has depth zero. -/
def depth : Value → Nat
  | array items => itemsDepth items + 1
  | object fields => fieldsDepth fields + 1
  | null => 0
  | bool _ => 0
  | number _ => 0
  | string _ => 0

/-- The greatest depth among the items of an array. -/
def itemsDepth : List Value → Nat
  | [] => 0
  | v :: rest => max (depth v) (itemsDepth rest)

/-- The greatest depth among the fields of an object. -/
def fieldsDepth : List (String × Value) → Nat
  | [] => 0
  | (_, v) :: rest => max (depth v) (fieldsDepth rest)

end

/-- The fields of an object. -/
def fields? : Value → Option Fields
  | object fields => some fields
  | _ => none

/-- The items of an array. -/
def items? : Value → Option (List Value)
  | array items => some items
  | _ => none

/-- An array or an object. -/
def isNested : Value → Bool
  | array _ => true
  | object _ => true
  | _ => false

theorem depth_le_itemsDepth {v : Value} {items : List Value} (h : v ∈ items) :
    v.depth ≤ itemsDepth items := by
  induction items with
  | nil => cases h
  | cons w rest ih =>
    rw [itemsDepth]
    rcases List.mem_cons.1 h with rfl | h
    · omega
    · have := ih h
      omega

theorem depth_le_fieldsDepth {k : String} {v : Value} {fields : Fields} (h : (k, v) ∈ fields) :
    v.depth ≤ fieldsDepth fields := by
  induction fields with
  | nil => cases h
  | cons w rest ih =>
    obtain ⟨l, w⟩ := w
    rw [fieldsDepth]
    rcases List.mem_cons.1 h with h | h
    · cases h
      omega
    · have := ih h
      omega

end Value

namespace Fields

/-- The value under a key. -/
def find? (fields : Fields) (key : String) : Option Value :=
  match fields with
  | [] => none
  | (k, v) :: rest => if k = key then some v else find? rest key

/-- Whether a key is present. -/
def contains (fields : Fields) (key : String) : Bool := (find? fields key).isSome

/-- The fields with a value put under a key, in place of the one that was there. -/
def insert (fields : Fields) (key : String) (value : Value) : Fields :=
  match fields with
  | [] => [(key, value)]
  | (k, v) :: rest =>
    if k = key then (key, value) :: rest
    else if key < k then (key, value) :: (k, v) :: rest
    else (k, v) :: insert rest key value

/-- The fields without a key. -/
def erase (fields : Fields) (key : String) : Fields :=
  match fields with
  | [] => []
  | (k, v) :: rest => if k = key then rest else (k, v) :: erase rest key

/-- The fields with all entries of `other` put in. -/
def merge (fields other : Fields) : Fields :=
  other.foldl (fun acc entry => insert acc entry.1 entry.2) fields

/-- Fields from entries in any order; of two entries with one key the later one stays. -/
def ofList (entries : List (String × Value)) : Fields := merge [] entries

/-- The keys in order. -/
def keys (fields : Fields) : List String := fields.map (·.1)

theorem mem_of_find? {fields : Fields} {key : String} {value : Value}
    (h : find? fields key = some value) : (key, value) ∈ fields := by
  induction fields with
  | nil => simp [find?] at h
  | cons entry rest ih =>
    obtain ⟨k, v⟩ := entry
    rw [find?] at h
    split at h
    · cases h
      simp_all
    · exact List.mem_cons_of_mem _ (ih h)

end Fields

end LiveMarkup
