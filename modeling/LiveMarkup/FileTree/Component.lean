import LiveMarkup.FileTree

/-!
# Components of a path

A path is a sequence of components (`FileTree.components`). Slashes behind one another count as one
and those at the end count for nothing, and so does a point, unless the path begins with it. A path
is joined to that of a directory with a slash between them (`FileTree.join`), or takes its place if
it starts at the root.
-/

namespace LiveMarkup

namespace FileTree

/-- A part of a path. -/
inductive Component
  /-- The slash at the beginning. -/
  | root
  /-- A point at the beginning. -/
  | current
  /-- Two points, for the directory above. -/
  | parent
  | name (name : String)
  deriving DecidableEq, Repr

/-- The component that a step is, if it leads anywhere. -/
def Component.ofStep? (step : String) : Option Component :=
  if isStay step then none
  else if step == ".." then some .parent
  else some (.name step)

/-- Whether a path starts at the root. -/
def isAbsolute (path : String) : Bool := path.toList.head? == some '/'

/-- How a path begins, apart from its steps. -/
def start (path : String) : List Component :=
  if isAbsolute path then [.root]
  else if (steps path).head? == some "." then [.current]
  else []

/-- The components of a path in order. -/
def components (path : String) : List Component :=
  start path ++ (steps path).filterMap Component.ofStep?

/-- The path of a directory followed by a further path. -/
def join (directory path : String) : String :=
  if isAbsolute path then path
  else
    match directory.toList.getLast? with
    | none => path
    | some '/' => directory ++ path
    | some _ => directory ++ "/" ++ path

end FileTree

end LiveMarkup
