import LiveMarkup.OrderedMap

/-!
# Trees of files

Files and directories by their locations. A path is a text whose names are separated by slashes; it
is followed name by name from the root (`FileTree.locate`), and every name but the last one has to
lead into a directory.

* `FileTree.read` is the text at a path.
* `FileTree.write` puts a file into a directory that is there already.
* `FileTree.createDirectories` makes the directories that are missing on a path.
-/

namespace LiveMarkup

/-- What is at a location. -/
inductive FileEntry
  /-- A file, and its text if its bytes are one. -/
  | file (text? : Option String)
  | directory
  deriving DecidableEq, Repr, Inhabited

/-- Why a file is not read or written. -/
inductive FileFault
  /-- There is nothing at the path. -/
  | notFound
  /-- Something else is there, or the path is none. -/
  | unusable
  deriving DecidableEq, Repr

/-- The names that lead to a location from the root. -/
abbrev Location := List String

/-- What is at the locations other than the root, which is a directory. -/
abbrev FileTree := OrderedMap Location FileEntry

namespace FileTree

/-- What is at a location. -/
def content? (tree : FileTree) (location : Location) : Option FileEntry :=
  match location with
  | [] => some .directory
  | _ => OrderedMap.find? tree location

/-- The parts of a path between its slashes. -/
def steps (path : String) : List String :=
  (path.toList.splitOn '/').map String.ofList

/-- A part of a path that does not lead to another place. -/
def isStay (step : String) : Bool := step.isEmpty || step == "."

/-- The longest name, in bytes. -/
def maxName : Nat := 255

/-- The longest path, in bytes. -/
def maxPath : Nat := 4095

/-- The location to which a step leads from a directory. -/
def enter (location : Location) (step : String) : Except FileFault Location :=
  if isStay step then .ok location
  else if step == ".." then .ok location.dropLast
  else if maxName < step.utf8ByteSize then .error .unusable
  else .ok (location ++ [step])

/-- Follows steps from a location. The last one may lead to where nothing is. -/
def follow (tree : FileTree) (location : Location) : List String → Except FileFault Location
  | [] => .ok location
  | step :: rest =>
    match tree.content? location with
    | none => .error .notFound
    | some (.file _) => .error .unusable
    | some .directory => (enter location step).bind fun next => follow tree next rest

/-- Whether a text may be a path. -/
def isPath (path : String) : Bool := !path.toList.contains '\x00' && path.utf8ByteSize ≤ maxPath

/-- The location at the end of a path. -/
def locate (tree : FileTree) (path : String) : Except FileFault Location :=
  if isPath path then tree.follow [] (steps path) else .error .unusable

/-- The text of the file at a path. -/
def read (tree : FileTree) (path : String) : Except FileFault String :=
  (tree.locate path).bind fun location =>
    match tree.content? location with
    | none => .error .notFound
    | some (.file (some text)) => .ok text
    | some _ => .error .unusable

/-- The tree with a file put at a path. -/
def write (tree : FileTree) (path : String) (text? : Option String) : Except FileFault FileTree :=
  (tree.locate path).bind fun location =>
    match tree.content? location with
    | some .directory => .error .unusable
    | _ => .ok (OrderedMap.put tree location (.file text?))

/-- Makes the directories to which steps lead. What is made stays, even if a later step fails. -/
def makeDirectories (tree : FileTree) (location : Location) :
    List String → Except FileFault Location × FileTree
  | [] => (.ok location, tree)
  | step :: rest =>
    match enter location step with
    | .error e => (.error e, tree)
    | .ok next =>
      match tree.content? next with
      | some .directory => makeDirectories tree next rest
      | some (.file _) => (.error .unusable, tree)
      | none => makeDirectories (OrderedMap.put tree next .directory) next rest

/-- The steps to the directory above the last one that is named. -/
def above (steps : List String) : List String :=
  (steps.reverse.dropWhile isStay).tail.reverse

/-- Whether a path names its last directory by a point. Such a directory is not made. -/
def endsInPoint (steps : List String) : Bool := (steps.reverse.takeWhile isStay).contains "."

/-- Makes the directories that are missing on a path, the last one included. -/
def createDirectories (tree : FileTree) (path : String) : Except FileFault Unit × FileTree :=
  if isPath path then
    let (made, tree) :=
      tree.makeDirectories [] (if endsInPoint (steps path) then above (steps path) else steps path)
    let result := made.bind fun _ => (tree.locate path).bind fun location =>
      match tree.content? location with
      | some .directory => .ok ()
      | some (.file _) => .error .unusable
      | none => .error .notFound
    (result, tree)
  else (.error .unusable, tree)

/-- The tree without the file at a path, if there is one. -/
def removeFile? (tree : FileTree) (path : String) : Option FileTree :=
  match tree.locate path with
  | .ok location =>
    match tree.content? location with
    | some (.file _) => some (OrderedMap.erase tree location)
    | _ => none
  | .error _ => none

/-- The names in a directory, in order. -/
def names (tree : FileTree) (path : String) : List String :=
  match tree.locate path with
  | .ok location =>
    let here := tree.filterMap fun entry =>
      if entry.1.dropLast = location then entry.1.getLast? else none
    here.mergeSort fun a b => a ≤ b
  | .error _ => []

end FileTree

end LiveMarkup
