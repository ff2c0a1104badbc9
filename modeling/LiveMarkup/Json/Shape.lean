import LiveMarkup.Json.Skipping

/-!
# Reading JSON of a given shape

A record is read from an object, whose fields are found by their names, or from an array, whose
items are the fields in order (`readRecord`). Reading is done from left to right and stops at the
first fault: a value of another shape, a name that comes twice, or broken grammar. Fields with other
names are passed over; a field that is not there is left as it is.
-/

namespace LiveMarkup

namespace Json

/-- How a field of a record `α` is read. -/
structure FieldReader (α : Type) where
  name : String
  /-- Whether the field was read already. -/
  isSet : α → Bool
  /-- Reads the value of the field. -/
  read : Nat → α → (text : List Char) → Reading ReadFault α text

/-- The fault of a value that has another shape, or of a broken one. -/
def faultOfValue (text : List Char) : ReadFault :=
  match text.dropWhile isBlank with
  | [] => .unexpectedEnd
  | c :: rest =>
    if c = '[' ∨ c = '\x7b' then .mismatch
    else
      match readScalar c rest with
      | .ok _ => .mismatch
      | .error e => e

/-- Reads a string. -/
def readStringValue (text : List Char) : Reading ReadFault String text :=
  match readKey text with
  | .ok r => .ok r
  | .error e =>
    match nextChar text with
    | .ok ('"', _) => .error e
    | _ => .error (faultOfValue text)

/-- Reads an integer of 64 bits without sign. -/
def readWordValue (text : List Char) : Reading ReadFault Nat text :=
  match readValue 0 text with
  | .ok (.number (.int n), rest) => if n < 0 then .error .mismatch else .ok (n.toNat, rest)
  | _ => .error (faultOfValue text)

/-- Reads null, or a value by a given reader. -/
def readOptional {α : Type} (read : (t : List Char) → Reading ReadFault α t) (text : List Char) :
    Reading ReadFault (Option α) text :=
  match nextChar text with
  | .ok ('n', _) =>
    match readValue 0 text with
    | .ok (_, rest) => .ok (none, rest)
    | .error e => .error e
  | _ => (read text).map some

/-- Reads the value of the field with a name, behind the name. -/
def readNamedField {α : Type} (fields : List (FieldReader α)) (nesting : Nat) (acc : α)
    (name : String) (text : List Char) : Reading ReadFault α text :=
  match fields.find? fun f => f.name == name with
  | none =>
    (readColon text).andThen fun _ t _ => ((skipValue t).map fun _ => acc).toScan
  | some f =>
    if f.isSet acc then .error .mismatch
    else (readColon text).andThen fun _ t _ => (f.read nesting acc t).toScan

/-- Reads the fields of an object up to its brace. `field` reads a value, given the name in front
of it. -/
def readObjectBody {α : Type}
    (field : α → String → (t : List Char) → Reading ReadFault α t) (isFirst : Bool) (acc : α)
    (text : List Char) : Reading ReadFault α text :=
  match nextChar text with
  | .error e => .error e
  | .ok (c, rest) =>
    if c = '\x7d' then .ok (acc, rest)
    else match nextElement isFirst c rest with
      | .error e => .error e
      | .ok entry =>
        .past entry ((readKey entry.1).andThen fun name t _ =>
          ((field acc name t).andThen fun acc t _ =>
            (readObjectBody field false acc t).toScan).toScan)
termination_by text.length
decreasing_by
  have := entry.2
  omega

/-- The end of an array of which no further item is asked for. -/
def readArrayEnd (text : List Char) : Reading ReadFault Unit text :=
  (nextChar text).andThen fun c t _ => if c = ']' then Scan.pure () t else .error .malformed

/-- Reads the items of an array up to its bracket, by one reader after the other. -/
def readArrayBody {α : Type} (fields : List (FieldReader α)) (nesting : Nat) (isFirst : Bool)
    (acc : α) (text : List Char) : Reading ReadFault α text :=
  match fields with
  | [] => (readArrayEnd text).map fun _ => acc
  | f :: more =>
    match nextChar text with
    | .error e => .error e
    | .ok (c, rest) =>
      if c = ']' then .ok (acc, rest)
      else match nextElement isFirst c rest with
        | .error e => .error e
        | .ok item =>
          match nextChar item.1 with
          | .error e => .error e
          | .ok (']', _) => .error .malformed
          | .ok _ =>
            .past item ((f.read nesting acc item.1).andThen fun acc t _ =>
              (readArrayBody more nesting false acc t).toScan)

/-- Reads a record from an object or an array. `finish` makes a value of the fields that were read,
before the closing brace or bracket is passed. -/
def readRecord {α β : Type} (fields : List (FieldReader α)) (start : α)
    (finish : α → Except ReadFault β) (nesting : Nat) (text : List Char) :
    Reading ReadFault β text :=
  match nextChar text with
  | .error e => .error e
  | .ok (c, rest) =>
    if c = '\x7b' then
      if nesting ≤ 1 then .error .malformed
      else
        .past rest.toRest (.refine finish
          (readObjectBody (readNamedField fields (nesting - 1)) true start rest.1))
    else if c = '[' then
      if nesting ≤ 1 then .error .malformed
      else
        .past rest.toRest (.refine finish
          (readArrayBody fields (nesting - 1) true start rest.1))
    else .error (faultOfValue text)

end Json

end LiveMarkup
