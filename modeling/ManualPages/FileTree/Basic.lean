import ManualPages.Text.Octets

/-! # Trees of files

A tree of directories, files and symbolic links, held in memory, and the directory that
is current in it.  There are no permissions: every directory can be listed and searched, and
every file can be read.

* `Node` — a file, a link or a directory with named entries.
* `Node.child?`, `Node.descend?` — the entry of a name, and of a sequence of names.
* `Place` — a directory position without links, which survives the removal of what was there.
* `FileTree` — a root directory and the current directory.
* `LookupError`, `ReadError` — why a path leads nowhere, or a file cannot be read.
-/

namespace ManualPages

/-! ## Nodes -/

/-- What a name in a directory stands for. -/
inductive Node where
  | file (content : Octets)
  /-- A symbolic link with the path it stands for. -/
  | link (target : Octets)
  | directory (entries : List (Octets × Node))
  deriving Inhabited

namespace Node

def isDirectory : Node → Bool
  | .directory _ => true
  | _ => false

def entries : Node → List (Octets × Node)
  | .directory entries => entries
  | _ => []

def child? (node : Node) (name : Octets) : Option Node := node.entries.lookup name

/-- The node that a sequence of names leads to, links not followed. -/
def descend? (node : Node) : List Octets → Option Node
  | [] => some node
  | name :: names => (node.child? name).bind (·.descend? names)

/-- The directory with `name` standing for `child`, in its old position or at the end. -/
def put (node : Node) (name : Octets) (child : Node) : Node :=
  .directory (insert node.entries)
where
  /-- Replaces the first entry of that name, or adds one. -/
  insert : List (Octets × Node) → List (Octets × Node)
    | [] => [(name, child)]
    | (other, node) :: rest =>
      if other = name then (name, child) :: rest else (other, node) :: insert rest

def erase (node : Node) (name : Octets) : Node :=
  .directory (node.entries.filter (·.1 ≠ name))

/-- Changes the node that a sequence of names leads to; names that are missing on the
    way become directories. -/
def modify (f : Node → Node) : List Octets → Node → Node
  | [], node => f node
  | name :: names, node =>
    node.put name (modify f names ((node.child? name).getD (.directory [])))

end Node

/-! ## Places -/

/-- A directory position: names from the root, none of them a link, and below that place
    a number of directories that have been removed while they were in use. -/
structure Place where
  names : List Octets
  removed : Nat := 0
  deriving DecidableEq, Repr

namespace Place

def root : Place := ⟨[], 0⟩

def parent (place : Place) : Place :=
  match place.removed with
  | 0 => ⟨place.names.dropLast, 0⟩
  | n + 1 => ⟨place.names, n⟩

def child (place : Place) (name : Octets) : Place := ⟨place.names ++ [name], 0⟩

def path (place : Place) : Octets :=
  match place.names with
  | [] => Octets.encode ['/']
  | names => names.flatMap fun name => Octets.encode ['/'] ++ name

end Place

/-! ## Trees -/

/-- A tree of files with a current directory. -/
structure FileTree where
  root : Node := .directory []
  current : Place := Place.root

/-- The directory node at a place; a removed directory is an empty one. -/
def FileTree.at? (tree : FileTree) (place : Place) : Option Node :=
  if place.removed = 0 then tree.root.descend? place.names else some (.directory [])

/-! ## Failures -/

inductive LookupError where
  | notFound
  /-- Something on the way, or at the end of a path that ends in a slash, is no directory. -/
  | notDirectory
  | tooManyLinks
  /-- A name or the whole path is too long. -/
  | tooLong
  | zeroInPath
  deriving DecidableEq, Repr

namespace LookupError

def kind : LookupError → Text
  | .notFound => "entity not found".toList
  | .notDirectory => "not a directory".toList
  | .tooManyLinks => "filesystem loop or indirection limit (e.g. symlink loop)".toList
  | .tooLong => "invalid filename".toList
  | .zeroInPath => "invalid input parameter".toList

def message : LookupError → Text
  | .notFound => "No such file or directory (os error 2)".toList
  | .notDirectory => "Not a directory (os error 20)".toList
  | .tooManyLinks => "Too many levels of symbolic links (os error 40)".toList
  | .tooLong => "File name too long (os error 36)".toList
  | .zeroInPath => "file name contained an unexpected NUL byte".toList

end LookupError

/-- Why the text of a file cannot be read. -/
inductive ReadError where
  | lookup (cause : LookupError)
  | isDirectory
  | notUtf8
  deriving DecidableEq, Repr

/-- What is said of a file that cannot be read. -/
def ReadError.message : ReadError → Text
  | .lookup cause => cause.message
  | .isDirectory => "Is a directory (os error 21)".toList
  | .notUtf8 => "stream did not contain valid UTF-8".toList

end ManualPages
