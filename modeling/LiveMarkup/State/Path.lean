import LiveMarkup.Json.Value

/-!
# Paths into a state

A path leads from a value to a value inside it, by keys of objects and indexes of arrays.
`Value.resolve?` follows a path, and `Value.replaceAt` puts another value at its end.

A write through a path is worked out on values alone: `Value.put?`, `Value.putAt?` and `Value.take?`
answer with the changed value, or with none if nothing changes. A value put in place of one that is
the same (`Value.sameInState`) changes nothing; numbers are the same if their doubles are.
-/

namespace LiveMarkup

/-- A step of a path. -/
inductive Segment
  | key (k : String)
  | index (i : Nat)
  deriving DecidableEq, Repr, Inhabited

/-- A path from the root of a state. -/
abbrev Path := List Segment

namespace Value

/-- The value at one step. -/
def step? : Value → Segment → Option Value
  | object fields, .key k => Fields.find? fields k
  | array items, .index i => items[i]?
  | _, _ => none

/-- The value at the end of a path. -/
def resolve? (v : Value) : Path → Option Value
  | [] => some v
  | s :: path =>
    match v.step? s with
    | some w => w.resolve? path
    | none => none

/-- The value with another one put at one step, where there is a value. -/
def replaceStep (v : Value) (s : Segment) (new : Value) : Value :=
  match v, s with
  | object fields, .key k =>
    if Fields.contains fields k then object (Fields.insert fields k new) else v
  | array items, .index i => array (items.set i new)
  | _, _ => v

/-- The value with another one put at the end of a path. A path that leads nowhere changes
nothing. -/
def replaceAt (v : Value) (path : Path) (new : Value) : Value :=
  match path with
  | [] => new
  | s :: rest =>
    match v.step? s with
    | some w => v.replaceStep s (w.replaceAt rest new)
    | none => v

/-- Whether a number in a state is the same as another one: the doubles nearest to them are. -/
def sameNumber (m n : Number) : Bool := m.toDouble.same n.toDouble

/-- Whether a value in a state is the same as another one. -/
def sameInState (v w : Value) : Bool := agree sameNumber v w

/-- The object at the end of a path. -/
def objectAt? (v : Value) (path : Path) : Option Fields := (v.resolve? path).bind fields?

/-- The array at the end of a path. -/
def arrayAt? (v : Value) (path : Path) : Option (List Value) := (v.resolve? path).bind items?

/-- Puts a value under a key of the object at the end of a path. -/
def put? (v : Value) (path : Path) (key : String) (new : Value) : Option Value :=
  match v.objectAt? path with
  | none => none
  | some fields =>
    if (fields.find? key).any fun old => old.sameInState new then none
    else some (v.replaceAt path (.object (fields.insert key new)))

/-- Puts a value at an index of the array at the end of a path, or right behind its last item. -/
def putAt? (v : Value) (path : Path) (index : Nat) (new : Value) : Option Value :=
  match v.arrayAt? path with
  | none => none
  | some items =>
    if index = items.length then some (v.replaceAt path (.array (items ++ [new])))
    else
      match items[index]? with
      | none => none
      | some old =>
        if old.sameInState new then none
        else some (v.replaceAt path (.array (items.set index new)))

/-- Takes a key away from the object at the end of a path. Answers with the value that was there
and what is left. -/
def take? (v : Value) (path : Path) (key : String) : Option (Value × Value) :=
  match v.objectAt? path with
  | none => none
  | some fields =>
    (fields.find? key).map fun old => (old, v.replaceAt path (.object (fields.erase key)))

end Value

end LiveMarkup
