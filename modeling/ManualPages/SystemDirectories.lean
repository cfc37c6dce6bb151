import ManualPages.FileTree.Lookup
import ManualPages.SearchPath

/-! # Directories of alternate systems

Pages of another system lie in a directory named after it, inside the hierarchies.  The
system name `man` stands for the hierarchies themselves.

* `SystemDirectories.names` — the systems of a list.
* `SystemDirectories.addElement`, `addSystem` — what one element, and one system, adds.
* `SystemDirectories.extend` — the search path for a list of systems.
-/

namespace ManualPages

namespace SystemDirectories

def native : Text := "man".toList

/-- The systems of a list divided by commas and colons. -/
def names (systems : Text) : List Text :=
  (systems.splitOnP fun c => c = ',' || c = ':').filter (! ·.isEmpty)

def directoryOf (hierarchy system : Text) : Text := hierarchy ++ '/' :: system

/-- Adds the directory of a system in one element of a search path, if it exists. -/
def addElement (tree : FileTree) (system result element : Text) : Traced Text :=
  let directory := directoryOf element system
  match tree.probe directory with
  | .directory => do
    Traced.report (.listing directory)
    SearchPath.appendTraced result directory
  | .notDirectory => do
    Traced.report (.notDirectory directory)
    return result
  | .unreadable cause => do
    Traced.report (.cannotExamine directory cause)
    return result

def addSystem (tree : FileTree) (path result system : Text) : Traced Text :=
  if system = native then SearchPath.appendTraced result path
  else (SearchPath.segments path).foldlM (addElement tree system) result

/-- The search path for a list of systems.  Without systems, and where none of their
    directories exists, it is the path itself. -/
def extend (tree : FileTree) (systems? : Option Text) (path : Text) : Traced Text :=
  match systems?.filter (! ·.isEmpty) with
  | none => pure path
  | some systems => do
    let result ← (names systems).foldlM (addSystem tree path) []
    if result.isEmpty then
      Traced.report .noSystemDirectory
      return path
    else return result

end SystemDirectories

end ManualPages
