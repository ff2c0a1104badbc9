import LiveMarkup.Config
import LiveMarkup.Error
import LiveMarkup.FileTree
import LiveMarkup.Json.Text

/-!
# Keeping states

A state is kept under a key as a JSON text, either in memory (`MemoryStorage`) or in a file of a
directory (`FileStorage`). The name of the file is made of the key: a character other than an ASCII
letter, a digit, a hyphen or an underscore becomes an underscore.
-/

namespace LiveMarkup

/-- The state that a text writes. -/
def readState (key : String) (text : String) : Except StorageError Fields :=
  match Value.ofText text with
  | .ok (.object fields) => .ok fields
  | _ => .error (.notJson key)

/-- The texts of states in memory, by their keys. -/
abbrev MemoryStorage := OrderedMap String String

namespace MemoryStorage

/-- The state under a key, if there is one. -/
def load (storage : MemoryStorage) (key : String) : Except StorageError (Option Fields) :=
  match OrderedMap.find? storage key with
  | none => .ok none
  | some text => (readState key text).map some

/-- The storage with a state put under a key. -/
def save (storage : MemoryStorage) (key : String) (state : Fields) : MemoryStorage :=
  OrderedMap.put storage key (Value.object state).compact

end MemoryStorage

/-- A directory with a file for each key. -/
structure FileStorage where
  directory : String
  deriving DecidableEq, Repr

namespace FileStorage

/-- Whether a character of a key stands in the name of its file. -/
def isNameChar (c : Char) : Bool := c.isAlphanum || c == '-' || c == '_'

/-- The name of the file for a key. -/
def fileName (key : String) : String :=
  String.ofList (key.toList.map fun c => if isNameChar c then c else '_') ++ ".json"

/-- The path of the file for a key. -/
def path (storage : FileStorage) (key : String) : String :=
  storage.directory ++ "/" ++ fileName key

/-- The state under a key, if there is one. -/
def load (storage : FileStorage) (files : FileTree) (key : String) :
    Except StorageError (Option Fields) :=
  match files.read (storage.path key) with
  | .ok text => (readState key text).map some
  | .error .notFound => .ok none
  | .error .unusable => .error (.unavailable key)

/-- Puts a state under a key. The directory is made if it is missing. -/
def save (storage : FileStorage) (files : FileTree) (key : String) (state : Fields) :
    Except StorageError Unit × FileTree :=
  match files.createDirectories storage.directory with
  | (.error _, files) => (.error (.unavailable key), files)
  | (.ok (), files) =>
    match files.write (storage.path key) (some ((Value.object state).pretty 0)) with
    | .ok files => (.ok (), files)
    | .error _ => (.error (.unavailable key), files)

end FileStorage

/-- A place where states are kept. -/
inductive Storage
  | memory (entries : MemoryStorage)
  | files (storage : FileStorage)
  deriving DecidableEq, Repr

namespace Storage

/-- The empty storage of a kind. -/
def ofKind : StorageKind → Storage
  | .session => memory []
  | .durable directory => files ⟨directory⟩

/-- The state under a key, if there is one. -/
def load (storage : Storage) (tree : FileTree) (key : String) :
    Except StorageError (Option Fields) :=
  match storage with
  | memory entries => entries.load key
  | files storage => storage.load tree key

/-- Puts a state under a key. Answers also with the storage and the files that there are then. -/
def save (storage : Storage) (tree : FileTree) (key : String) (state : Fields) :
    Except StorageError Unit × Storage × FileTree :=
  match storage with
  | memory entries => (.ok (), memory (entries.save key state), tree)
  | files storage =>
    let (result, tree) := storage.save tree key state
    (result, files storage, tree)

end Storage

end LiveMarkup
