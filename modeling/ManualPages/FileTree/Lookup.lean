import ManualPages.FileTree.Basic

/-! # Finding files

How a path leads to a node: name by name from the root or from the current directory,
through symbolic links.

* `Step`, `steps` — a path as the moves it asks for.
* `FileTree.walk` — the moves from a place, with a budget of links to follow.
* `FileTree.locate`, `locateItself` — where a path leads, and where it leads when a link
  at its end is not followed.
* `FileTree.probe`, `isPresent` — whether a path is a directory, and whether it is anything.
* `FileTree.listing?`, `canonical?`, `readText`, `currentPath?` — the entries of a
  directory, the path without links, the text of a file, the current directory.
-/

namespace ManualPages

/-! ## Paths as moves -/

/-- A move that one component of a path asks for. -/
inductive Step where
  | stay
  | up
  | enter (name : Octets)
  deriving DecidableEq, Repr

namespace Octets

def slash : UInt8 := 47

def dot : UInt8 := 46

def isAbsolute (path : Octets) : Bool := path.head? = some slash

/-- The moves that a path asks for.  Slashes in a row count as one, and a slash at the
    end asks to stay in a directory. -/
def steps (path : Octets) : List Step :=
  let moves := (path.splitOn slash).filterMap fun part =>
    if part = [] then none
    else if part = [dot] then some .stay
    else if part = [dot, dot] then some .up
    else some (.enter part)
  if path.getLast? = some slash then moves ++ [.stay] else moves

/-- A directory and a name as one path, with one slash between them if the directory
    does not end in one.  An empty directory adds nothing, an absolute name replaces it. -/
def join (directory name : Octets) : Octets :=
  if name.isAbsolute ∨ directory = [] then name
  else if directory.getLast? = some slash then directory ++ name
  else directory ++ slash :: name

end Octets

/-! ## Walking -/

def longestName : Nat := 255

def longestPath : Nat := 4095

def linkBudget : Nat := 40

/-- Whether a link at the very end of a path is followed. -/
inductive LastLink where
  | follow
  | keep
  deriving DecidableEq

namespace FileTree

/-- Makes moves one after the other as long as they meet no link to follow, and hands a
    link over to `jump` together with the moves that are left. -/
def walkWith (tree : FileTree) (last : LastLink)
    (jump : Place → List Step → Except LookupError (Place × Node))
    (place : Place) (node : Node) : List Step → Except LookupError (Place × Node)
  | [] => .ok (place, node)
  | step :: rest =>
    if ! node.isDirectory then .error .notDirectory
    else
      match step with
      | .stay => walkWith tree last jump place node rest
      | .up =>
        match tree.at? place.parent with
        | some above => walkWith tree last jump place.parent above rest
        | none => .error .notFound
      | .enter name =>
        if longestName < name.length then .error .tooLong
        else
          match node.child? name with
          | none => .error .notFound
          | some (.link target) =>
            if rest = [] ∧ last = .keep then .ok (place.child name, .link target)
            else
              let origin := if target.isAbsolute then Place.root else place
              jump origin (target.steps ++ rest)
          | some child => walkWith tree last jump (place.child name) child rest

/-- Makes moves from a place and follows up to `budget` links on the way. -/
def walk (tree : FileTree) (last : LastLink) :
    Nat → Place → List Step → Except LookupError (Place × Node)
  | budget, place, moves =>
    match tree.at? place with
    | none => .error .notFound
    | some node =>
      match budget with
      | 0 => walkWith tree last (fun _ _ => .error .tooManyLinks) place node moves
      | budget + 1 => walkWith tree last (walk tree last budget) place node moves

def trace (tree : FileTree) (last : LastLink) (path : Octets) :
    Except LookupError (Place × Node) :=
  if 0 ∈ path then .error .zeroInPath
  else if path = [] then .error .notFound
  else
    let origin := if path.isAbsolute then Place.root else tree.current
    tree.walk last linkBudget origin path.steps

/-- Where a path leads, if it is not too long. -/
def locateFrom (tree : FileTree) (last : LastLink) (path : Octets) :
    Except LookupError (Place × Node) :=
  if 0 ∉ path ∧ longestPath < path.length then .error .tooLong else tree.trace last path

def locate (tree : FileTree) (path : Octets) : Except LookupError (Place × Node) :=
  tree.locateFrom .follow path

/-- Where a path leads, a link at its end not followed. -/
def locateItself (tree : FileTree) (path : Octets) : Except LookupError (Place × Node) :=
  tree.locateFrom .keep path

end FileTree

/-! ## Questions to a tree -/

/-- What a path turns out to be. -/
inductive Probe where
  | directory
  | notDirectory
  | unreadable (cause : LookupError)
  deriving DecidableEq, Repr

namespace FileTree

def probeOctets (tree : FileTree) (path : Octets) : Probe :=
  match tree.locate path with
  | .ok (_, node) => if node.isDirectory then .directory else .notDirectory
  | .error cause => .unreadable cause

def probe (tree : FileTree) (path : Text) : Probe := tree.probeOctets (Octets.encode path)

def isDirectory (tree : FileTree) (path : Text) : Bool := tree.probe path = .directory

/-- Whether a path names something, be it a link that leads nowhere. -/
def isPresent (tree : FileTree) (path : Text) : Bool :=
  (tree.locate (Octets.encode path)).isOk || (tree.locateItself (Octets.encode path)).isOk

/-- The entries of the directory that a path leads to. -/
def listing? (tree : FileTree) (path : Text) : Option (List (Octets × Node)) :=
  match tree.locate (Octets.encode path) with
  | .ok (_, .directory entries) => some entries
  | _ => none

/-- The names in the directory that a path leads to, those that are texts, in order. -/
def names? (tree : FileTree) (path : Text) : Option (List Text) :=
  (tree.listing? path).map fun entries =>
    Text.sort (entries.filterMap fun (name, _) => Octets.decode? name)

/-- The absolute path of the current directory, unless it has been removed. -/
def currentPath? (tree : FileTree) : Option Octets :=
  if tree.current.removed = 0 then some tree.current.path else none

/-- The absolute path without links of what a path leads to.  A relative path has none
    where the current directory has been removed, and neither has one that is not a text.
    The limit on the length of a path holds for the result only, because links are resolved
    name by name. -/
def canonical? (tree : FileTree) (path : Text) : Option Text :=
  let octets := Octets.encode path
  if ! octets.isAbsolute ∧ tree.current.removed ≠ 0 then none
  else
    match tree.trace .follow octets with
    | .ok (place, _) =>
      if place.path.length ≤ longestPath then Octets.decode? place.path else none
    | .error _ => none

/-- The text of the file that a path leads to. -/
def readText (tree : FileTree) (path : Octets) : Except ReadError Text :=
  match tree.locate path with
  | .error cause => .error (.lookup cause)
  | .ok (_, .directory _) => .error .isDirectory
  | .ok (_, .link _) => .error (.lookup .notFound)
  | .ok (_, .file content) =>
    match Octets.decode? content with
    | some text => .ok text
    | none => .error .notUtf8

end FileTree

end ManualPages
