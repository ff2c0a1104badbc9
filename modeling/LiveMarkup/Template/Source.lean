import LiveMarkup.Error
import LiveMarkup.FileTree.Component

/-!
# Sources of templates

A template is fetched by its locator. A `FileSource` reads templates from the files below a
directory; a locator is a path that does not lead out of it (`FileSource.isContained`).
`FileSource.fetchWith` is given how a file is read, and `FileSource.fetch` reads from a tree of
files.
-/

namespace LiveMarkup

/-- The files below a directory. -/
structure FileSource where
  root : String
  deriving DecidableEq, Repr

namespace FileSource

/-- Whether a component of a path leads down or stays. -/
def leadsDown : FileTree.Component → Bool
  | .name _ => true
  | .current => true
  | .parent => false
  | .root => false

/-- Whether a locator stays below the root. -/
def isContained (locator : String) : Bool := (FileTree.components locator).all leadsDown

/-- The path of a template. -/
def path (source : FileSource) (locator : String) : String := FileTree.join source.root locator

/-- The template for a locator, which is read from the file at its path. -/
def fetchWith {m : Type → Type} [Monad m] (read : String → m (Except FileFault String))
    (source : FileSource) (locator : String) : m (Except FetchError String) :=
  if isContained locator then do
    match ← read (source.path locator) with
    | .ok text => pure (.ok text)
    | .error .notFound => pure (.error (.notFound locator))
    | .error .unusable => pure (.error (.unreadable locator))
  else pure (.error (.invalidLocator locator))

/-- The template for a locator among files. -/
def fetch (source : FileSource) (files : FileTree) (locator : String) : Except FetchError String :=
  Id.run (fetchWith (fun path => pure (files.read path)) source locator)

end FileSource

end LiveMarkup
