import ManualPages.FileTree.Lookup
import ManualPages.Wildcard.Pattern

/-! # Expansion of wildcards

The paths in a tree that a pattern matches, component by component.

* `Piece`, `pieces` — the components of a pattern.
* `Reached`, `entriesOf` — a path on the way, and the entries of a directory.
* `descend`, `below` — the matches at all levels, and those of the remaining components.
* `expansions` — the paths that a whole pattern matches.
* `expand` — the same, and the pattern itself where there are none.
-/

namespace ManualPages

namespace Wildcard

/-! ## Components -/

inductive Piece where
  | named (name : Text)
  | levels
  | wild (pattern : Pattern)
  deriving DecidableEq, Repr

def Piece.ofPattern (pattern : Pattern) : Piece :=
  match pattern.literal? with
  | some name => .named name
  | none => if pattern.spansLevels then .levels else .wild pattern

def Piece.accepts : Piece → Text → Bool
  | .named name, candidate => candidate = name
  | .levels, _ => true
  | .wild pattern, candidate => pattern.accepts candidate

def mergeLevels : List Piece → List Piece
  | .levels :: .levels :: rest => mergeLevels (.levels :: rest)
  | piece :: rest => piece :: mergeLevels rest
  | [] => []

def splitComponents (t : Text) : List Text :=
  let parts := t.splitOn '/'
  if parts.getLast? = some [] then parts.dropLast else parts

/-- The components of a pattern after its leading slash.  A pattern with nothing else in it
    has one empty component. -/
def pieces (pattern : Text) : Except PatternError (List Piece) :=
  let body := if pattern.head? = some '/' then pattern.drop 1 else pattern
  let parts := if body = [] then [[]] else splitComponents body
  (parts.mapM Pattern.parse).map fun patterns => mergeLevels (patterns.map Piece.ofPattern)

/-! ## Paths -/

/-- Whether a path is the current directory written as a full stop, slashes and further
    full stops after it not counted. -/
def isCurrent (path : Text) : Bool :=
  path.head? = some '.' && (path.splitOn '/').all fun part => part = [] || part = ['.']

/-- A directory and a name as one path.  The name alone stands for an entry of the
    current directory. -/
def entryPath (directory name : Text) : Text :=
  if isCurrent directory then name else joinPath directory name
where
  /-- Puts one slash between a directory and a name. -/
  joinPath (directory name : Text) : Text :=
    if directory = [] then name
    else if directory.getLast? = some '/' then directory ++ name
    else directory ++ '/' :: name

/-- A path that the components so far have led to. -/
structure Reached where
  path : Text
  directory : Bool

def Reached.ofPath (tree : FileTree) (path : Text) : Reached := ⟨path, tree.isDirectory path⟩

/-- An entry of a directory, on whose name a component is tried. -/
structure Entry extends Reached where
  name : Text

/-- The entries of a directory whose names are texts, in order. -/
def entriesOf (tree : FileTree) (directory : Text) : List Entry :=
  match tree.listing? directory with
  | none => []
  | some listing =>
    let named := listing.filterMap fun (octets, node) =>
      (Octets.decode? octets).map fun name => (name, node)
    let ordered := named.mergeSort fun a b => Text.inOrder a.1 b.1
    ordered.map fun (name, node) =>
      let path := entryPath directory name
      let isDirectory :=
        match node with
        | .directory _ => true
        | .file _ => false
        | .link _ => tree.isDirectory path
      ⟨⟨path, isDirectory⟩, name⟩

/-! ## Matching -/

/-- How many directory levels are entered for one component.  The path grows with every
    level, and a path of more than this many octets cannot be listed. -/
def deepest : Nat := longestPath + 1

/-- All entries below a directory, each followed by what is below it, with `found` giving
    the results of each entry. -/
def descend (tree : FileTree) (found : Entry → List Text) : Nat → Text → List Text
  | 0, _ => []
  | depth + 1, directory =>
    (entriesOf tree directory).flatMap fun entry =>
      found entry ++ if entry.directory then descend tree found depth entry.path else []

/-- The entries `..` and `.`, which every directory has and no listing shows.  Only a
    component that begins with a full stop of its own is tried on them. -/
def dotEntries (pattern : Pattern) (directory : Text) : List Text :=
  if pattern.beginsWithDot then
    ([['.', '.'], ['.']].filter pattern.accepts).map (entryPath.joinPath directory)
  else []

/-- The matches of a sequence of components from a path on.  `directoriesOnly` keeps only
    directories among the results. -/
def below (tree : FileTree) (directoriesOnly : Bool) (here : Reached) : List Piece → List Text
  | [] => if directoriesOnly && ! here.directory then [] else [here.path]
  | .named name :: rest =>
    let path := entryPath here.path name
    let present :=
      if name = ['.'] ∨ name = ['.', '.'] then here.directory else tree.isPresent path
    if present then below tree directoriesOnly (.ofPath tree path) rest else []
  | [.levels] =>
    if here.directory then
      descend tree (fun entry => if entry.directory then [entry.path] else []) deepest here.path
    else []
  | .levels :: piece :: rest =>
    if here.directory then
      descend tree (fun entry =>
        if piece.accepts entry.name then below tree directoriesOnly entry.toReached rest
        else []) deepest here.path
    else []
  | .wild pattern :: rest =>
    if here.directory then
      (dotEntries pattern here.path).flatMap (fun path =>
          below tree directoriesOnly (.ofPath tree path) rest)
        ++ (entriesOf tree here.path).flatMap fun entry =>
          if pattern.accepts entry.name then below tree directoriesOnly entry.toReached rest
          else []
    else []

/-- The paths in a tree that a pattern matches.  The whole pattern has to be well formed,
    and so has each of its components alone. -/
def expansions (tree : FileTree) (pattern : Text) : Except PatternError (List Text) := do
  let _ ← Pattern.parse pattern
  let parts ← pieces pattern
  let origin := if pattern.head? = some '/' then ['/'] else ['.']
  return below tree (pattern.getLast? = some '/') (.ofPath tree origin) parts

/-- The paths that a pattern matches, or the pattern itself where nothing does. -/
def expand (tree : FileTree) (pattern : Text) : List Text × Option PatternError :=
  match expansions tree pattern with
  | .error fault => ([pattern], some fault)
  | .ok [] => ([pattern], none)
  | .ok found => (found, none)

end Wildcard

end ManualPages
