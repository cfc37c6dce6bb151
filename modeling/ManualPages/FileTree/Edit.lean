import ManualPages.FileTree.Lookup

/-! # Changing trees

A change names its object by a path that starts at a base directory, or at the root.
Directories on the way that are missing are made; links on the way are followed.

* `FileTree.makeDirectory`, `writeFile`, `makeLink` — add a directory, a file, a link.
* `FileTree.remove` — take away a file, a link or a directory with all below it.
* `FileTree.enter` — change the current directory.
-/

namespace ManualPages

namespace FileTree

def originOf (base : Place) (path : Octets) : Place :=
  if path.isAbsolute then Place.root else base

/-- The names of a path, without the components that stay in place. -/
def namesOf (path : Octets) : List Octets := (path.splitOn Octets.slash).filter (! ·.isEmpty)

/-- Puts a node at the entry `name` of the directory at a place. -/
def putAt (tree : FileTree) (place : Place) (name : Octets) (node : Node) : FileTree :=
  { tree with root := Node.modify (·.put name node) place.names tree.root }

/-- Walks from a place along names and makes the directories that are missing.  The
    result is the tree and the place at the end. -/
def ensure (tree : FileTree) (place : Place) : List Octets → FileTree × Place
  | [] => (tree, place)
  | name :: names =>
    match tree.walk .follow linkBudget place name.steps with
    | .ok (next, _) => ensure tree next names
    | .error _ => ensure (tree.putAt place name (.directory [])) (place.child name) names

def makeDirectory (tree : FileTree) (base : Place) (path : Octets) : FileTree :=
  (tree.ensure (originOf base path) (namesOf path)).1

/-- Puts a node at a path whose directories are made if they are missing. -/
def putNode (tree : FileTree) (base : Place) (path : Octets) (node : Node) : FileTree :=
  let names := namesOf path
  match names.getLast? with
  | none => tree
  | some name =>
    let (tree, place) := tree.ensure (originOf base path) names.dropLast
    tree.putAt place name node

/-- Writes a file, through a link to a file if the path leads to one. -/
def writeFile (tree : FileTree) (base : Place) (path content : Octets) : FileTree :=
  match tree.walk .follow linkBudget (originOf base path) path.steps with
  | .ok (place, .file _) =>
    { tree with root := Node.modify (fun _ => .file content) place.names tree.root }
  | _ => tree.putNode base path (.file content)

def makeLink (tree : FileTree) (base : Place) (path target : Octets) : FileTree :=
  tree.putNode base path (.link target)

/-- The current directory after the directory of some names has been removed. -/
def afterRemoval (current : Place) (gone : List Octets) : Place :=
  if gone ≠ [] ∧ gone.isPrefixOf current.names then
    ⟨gone.dropLast, current.removed + (current.names.length - gone.length + 1)⟩
  else current

/-- Takes away what a path names, a link and not what it leads to.  The current
    directory stays in use if it is among what is taken away. -/
def remove (tree : FileTree) (base : Place) (path : Octets) : FileTree :=
  match tree.walk .keep linkBudget (originOf base path) path.steps with
  | .ok (place, _) =>
    match place.names.getLast? with
    | none => tree
    | some name =>
      { root := Node.modify (·.erase name) place.names.dropLast tree.root,
        current := afterRemoval tree.current place.names }
  | .error _ => tree

/-- Makes the directory that a path leads to the current one. -/
def enter (tree : FileTree) (base : Place) (path : Octets) : FileTree :=
  match tree.walk .follow linkBudget (originOf base path) path.steps with
  | .ok (place, node) => if node.isDirectory then { tree with current := place } else tree
  | .error _ => tree

end FileTree

end ManualPages
