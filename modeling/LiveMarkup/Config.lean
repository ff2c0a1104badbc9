import LiveMarkup.Json.Shape
import LiveMarkup.Json.Text

/-!
# Configurations

The options of an engine, and how they are read from JSON (`Config.ofText`) and written
(`Config.toJson`). Every option has a default, so each may be left out.

The place where states are kept is written as an object, whose field `kind` says of which kind it
is. It may also be written as an array, with the kind in front.
-/

namespace LiveMarkup

/-- Where states are kept. -/
inductive StorageKind
  /-- In memory, as long as the engine is there. -/
  | session
  /-- In files of a directory, one for each key. -/
  | durable (directory : String)
  deriving DecidableEq, Repr, Inhabited

/-- How states are kept. -/
structure Persistence where
  storageKey : String
  backend : StorageKind := .session
  deriving DecidableEq, Repr

/-- The options of an engine. -/
structure Config where
  /-- What stands for a placeholder without a value. -/
  defaultValue : String := ""
  /-- How many templates are cached at most. -/
  cacheLimit : Nat := 100
  /-- How long a cached template may be used, in milliseconds. -/
  cacheExpirationMs : Nat := 60000
  persistence : Option Persistence := none
  deriving DecidableEq, Repr

instance : Inhabited Config := ⟨{}⟩

/-! ## The JSON form -/

/-- The JSON form of a kind of storage. -/
def StorageKind.toJson : StorageKind → Value
  | session => .object (Fields.ofList [("kind", .string "session")])
  | durable directory =>
    .object (Fields.ofList [("kind", .string "durable"), ("directory", .string directory)])

/-- The JSON form of the way states are kept. -/
def Persistence.toJson (p : Persistence) : Value :=
  .object (Fields.ofList [("storageKey", .string p.storageKey), ("backend", p.backend.toJson)])

/-- The JSON form of a configuration. -/
def Config.toJson (c : Config) : Value :=
  .object (Fields.ofList [
    ("defaultValue", .string c.defaultValue),
    ("cacheLimit", .number (.int c.cacheLimit)),
    ("cacheExpirationMs", .number (.int c.cacheExpirationMs)),
    ("persistence", (c.persistence.map Persistence.toJson).getD .null)])

/-! ## Reading -/

namespace StorageKind

/-- What of a kind of storage was read so far: whether it is durable, and the other fields. -/
structure Draft where
  durable? : Option Bool := none
  /-- The other fields, last one first. -/
  fields : List (String × Value) := []

/-- Reads the name of a kind: whether it is the durable one. -/
def readDurable (text : List Char) : Reading ReadFault Bool text :=
  match Json.readStringValue text with
  | .ok ("session", rest) => .ok (false, rest)
  | .ok ("durable", rest) => .ok (true, rest)
  | .ok _ => .error .mismatch
  | .error e => .error e

/-- Reads a field of the object, behind its name. -/
def readField (nesting : Nat) (draft : Draft) (name : String) (text : List Char) :
    Reading ReadFault Draft text :=
  if name = "kind" then
    if draft.durable?.isSome then .error .mismatch
    else (Json.readColon text).andThen fun _ t _ =>
      ((readDurable t).map fun durable => { draft with durable? := some durable }).toScan
  else (Json.readColon text).andThen fun _ t _ =>
    ((Json.readValue nesting t).map fun v =>
      { draft with fields := (name, v) :: draft.fields }).toScan

/-- The kind of storage with the given fields. A durable one has its directory once. -/
def ofDraft (draft : Draft) : Except ReadFault StorageKind :=
  match draft.durable? with
  | none => .error .mismatch
  | some false => .ok session
  | some true =>
    match draft.fields.filter (·.1 == "directory") with
    | [(_, .string directory)] => .ok (durable directory)
    | _ => .error .mismatch

/-- The kind of storage with the given items of an array behind its name. -/
def ofItems (isDurable : Bool) (items : List Value) : Except ReadFault StorageKind :=
  match isDurable, items with
  | false, [] => .ok session
  | true, [.string directory] => .ok (durable directory)
  | _, _ => .error .mismatch

/-- Reads the items of an array behind its first one. -/
def readMoreItems (nesting : Nat) (text : List Char) : Reading ReadFault (List Value) text :=
  match Json.nextChar text with
  | .error e => .error e
  | .ok (']', rest) => .ok ([], rest)
  | .ok (',', rest) =>
    match Json.nextChar rest.1 with
    | .ok (']', _) => .error .malformed
    | _ => .past rest.toRest (Json.readItems nesting [] rest.1)
  | .ok _ => .error .malformed

/-- Reads an array behind its bracket: the name of the kind, and the items that follow. -/
def readArray (nesting : Nat) (text : List Char) :
    Reading ReadFault (Bool × List Value) text :=
  match Json.nextChar text with
  | .error e => .error e
  | .ok (']', _) => .error .mismatch
  | .ok _ =>
    (readDurable text).andThen fun isDurable t _ =>
      ((readMoreItems nesting t).map fun items => (isDurable, items)).toScan

/-- Reads a kind of storage. -/
def read (nesting : Nat) (text : List Char) : Reading ReadFault StorageKind text :=
  match Json.nextChar text with
  | .error e => .error e
  | .ok (c, rest) =>
    if c = '\x7b' then
      if nesting ≤ 1 then .error .malformed
      else
        .past rest.toRest (.refine ofDraft
          (Json.readObjectBody (readField (nesting - 1)) true {} rest.1))
    else if c = '[' then
      if nesting ≤ 1 then .error .malformed
      else
        .past rest.toRest (.refine (fun r => ofItems r.1 r.2)
          (readArray (nesting - 1) rest.1))
    else .error (Json.faultOfValue text)

end StorageKind

namespace Persistence

/-- What of it was read so far. -/
structure Draft where
  storageKey? : Option String := none
  backend? : Option StorageKind := none

/-- Its fields. -/
def fieldReaders : List (Json.FieldReader Draft) := [
  { name := "storageKey"
    isSet := fun d => d.storageKey?.isSome
    read := fun _ d t =>
      (Json.readStringValue t).map fun key => { d with storageKey? := some key } },
  { name := "backend"
    isSet := fun d => d.backend?.isSome
    read := fun nesting d t =>
      (StorageKind.read nesting t).map fun backend => { d with backend? := some backend } }]

/-- It has a key. -/
def ofDraft (d : Draft) : Except ReadFault Persistence :=
  match d.storageKey? with
  | some key => .ok ⟨key, d.backend?.getD .session⟩
  | none => .error .mismatch

/-- Reads the way states are kept. -/
def read (nesting : Nat) (text : List Char) : Reading ReadFault Persistence text :=
  Json.readRecord fieldReaders {} ofDraft nesting text

end Persistence

namespace Config

/-- What of a configuration was read so far. -/
structure Draft where
  defaultValue? : Option String := none
  cacheLimit? : Option Nat := none
  cacheExpirationMs? : Option Nat := none
  persistence? : Option (Option Persistence) := none

/-- The fields of a configuration. -/
def fieldReaders : List (Json.FieldReader Draft) := [
  { name := "defaultValue"
    isSet := fun d => d.defaultValue?.isSome
    read := fun _ d t => (Json.readStringValue t).map fun s => { d with defaultValue? := some s } },
  { name := "cacheLimit"
    isSet := fun d => d.cacheLimit?.isSome
    read := fun _ d t => (Json.readWordValue t).map fun n => { d with cacheLimit? := some n } },
  { name := "cacheExpirationMs"
    isSet := fun d => d.cacheExpirationMs?.isSome
    read := fun _ d t =>
      (Json.readWordValue t).map fun n => { d with cacheExpirationMs? := some n } },
  { name := "persistence"
    isSet := fun d => d.persistence?.isSome
    read := fun nesting d t =>
      (Json.readOptional (Persistence.read nesting) t).map fun p =>
        { d with persistence? := some p } }]

/-- The configuration with the options that were read. -/
def ofDraft (d : Draft) : Config :=
  let base : Config := {}
  { defaultValue := d.defaultValue?.getD base.defaultValue
    cacheLimit := d.cacheLimit?.getD base.cacheLimit
    cacheExpirationMs := d.cacheExpirationMs?.getD base.cacheExpirationMs
    persistence := d.persistence?.getD base.persistence }

/-- Reads a configuration. -/
def read (nesting : Nat) (text : List Char) : Reading ReadFault Config text :=
  Json.readRecord fieldReaders {} (fun d => .ok (ofDraft d)) nesting text

/-- The configuration that a whole text writes. -/
def ofText (text : String) : Except ReadFault Config :=
  match read Json.maxNesting text.toList with
  | .ok (c, rest) => (Json.readEnd rest.1).map fun _ => c
  | .error e => .error e

end Config

end LiveMarkup
