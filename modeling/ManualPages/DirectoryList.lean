import ManualPages.Expander
import ManualPages.Failure
import ManualPages.SearchPath

/-! # Directory lists

Lists of directories that may hold a limited number of entries.  One too many is a
failure; a list is never cut short.

* `DirectoryList`, `add` — a list with its limit, and one more entry.
* `addNew` — the directories among the candidates of a pattern that are not listed yet.
* `gather` — the directories that the elements of a search path stand for, made absolute.
* `resolveAll` — entries in their form without links, each once.
* `ofPath` — the final list of a search path.
-/

namespace ManualPages

/-- A list of directories with the number of entries it may hold. -/
structure DirectoryList where
  directories : List Text := []
  limit : Nat := 128
  deriving DecidableEq, Repr

namespace DirectoryList

/-- The list without entries that may hold `limit` of them. -/
def withLimit (limit : Nat) : DirectoryList := ⟨[], limit⟩

/-- How many entries a list may hold unless told otherwise. -/
def defaultLimit : Nat := ({} : DirectoryList).limit

def contains (list : DirectoryList) (directory : Text) : Bool :=
  list.directories.contains directory

def size (list : DirectoryList) : Nat := list.directories.length

def join (list : DirectoryList) : Text := SearchPath.join list.directories

/-- Adds an entry at the end, if the list may hold one more. -/
def add (list : DirectoryList) (directory : Text) : Except Failure DirectoryList :=
  if list.size < list.limit then .ok { list with directories := list.directories ++ [directory] }
  else .error (.tooManyDirectories list.limit)

/-! ## Adding what a pattern stands for -/

/-- Adds the candidates that are directories and not listed yet. -/
def addNewCandidates (tree : FileTree) (list : DirectoryList) :
    List Text → Traced (Outcome DirectoryList)
  | [] => pure ⟨list, none⟩
  | candidate :: rest =>
    if list.contains candidate then do
      Traced.report (.alreadyListed candidate)
      addNewCandidates tree list rest
    else
      match tree.probe candidate with
      | .directory => do
        Traced.report (.adding candidate)
        match list.add candidate with
        | .ok longer => addNewCandidates tree longer rest
        | .error failure => return ⟨list, some failure⟩
      | .notDirectory => do
        Traced.report (.notDirectory candidate)
        addNewCandidates tree list rest
      | .unreadable cause => do
        Traced.report (.unreadable candidate cause)
        addNewCandidates tree list rest

/-- Adds the directories that a pattern stands for and that are not listed yet.  Entries
    added before a failure stay. -/
def addNew (tree : FileTree) (expander : Expander) (list : DirectoryList) (pattern : Text) :
    Traced (Outcome DirectoryList) := do
  let candidates ← expander.expand tree pattern
  list.addNewCandidates tree candidates

/-! ## The final list -/

/-- The absolute form of a directory.  A relative one is placed in the current directory,
    which has to be known. -/
def absolute (tree : FileTree) (directory : Text) : Except Failure Text :=
  if directory.head? = some '/' then .ok directory
  else
    match tree.currentPath? with
    | some current => .ok (Octets.decodeLossy (current.join (Octets.encode directory)))
    | none => .error (.currentDirectoryUnknown LookupError.notFound.message)

def gatherCandidates (tree : FileTree) (list : DirectoryList) :
    List Text → Traced (Except Failure DirectoryList)
  | [] => pure (.ok list)
  | candidate :: rest =>
    match tree.probe candidate with
    | .directory =>
      match absolute tree candidate with
      | .error failure => pure (.error failure)
      | .ok directory => do
        Traced.report (.listing directory)
        match list.add directory with
        | .ok longer => gatherCandidates tree longer rest
        | .error failure => return .error failure
    | .notDirectory => do
      Traced.report (.notDirectory candidate)
      gatherCandidates tree list rest
    | .unreadable cause => do
      Traced.report (.unreadable candidate cause)
      gatherCandidates tree list rest

def gather (tree : FileTree) (expander : Expander) (list : DirectoryList) :
    List Text → Traced (Except Failure DirectoryList)
  | [] => pure (.ok list)
  | pattern :: rest => do
    let candidates ← expander.expand tree pattern
    match ← list.gatherCandidates tree candidates with
    | .ok longer => gather tree expander longer rest
    | .error failure => return .error failure

/-- The form of a directory without links, or the directory as it is written where there
    is none. -/
def resolved (tree : FileTree) (directory : Text) : Text :=
  (tree.canonical? directory).getD directory

/-- Resolves entries one after the other and keeps those that are not among the
    survivors so far.  `position` counts the entries. -/
def resolveAll (tree : FileTree) (survivors : List Text) (position : Nat) :
    List Text → Traced (List Text)
  | [] => pure survivors
  | entry :: rest =>
    let target := resolved tree entry
    match survivors.findIdx? (· = target) with
    | some earlier => do
      Traced.report (.duplicateRemoved entry position target earlier)
      resolveAll tree survivors (position + 1) rest
    | none => resolveAll tree (survivors ++ [target]) (position + 1) rest

/-- The final list of a search path: the directories that its elements stand for, in
    order, absolute and without links, each once.  The limit counts them all. -/
def ofPath (tree : FileTree) (expander : Expander) (limit : Nat) (path : Text) :
    Traced (Except Failure DirectoryList) := do
  match ← (withLimit limit).gather tree expander (SearchPath.entries path) with
  | .error failure => return .error failure
  | .ok gathered =>
    let directories ← resolveAll tree [] 0 gathered.directories
    Traced.report (.finalPath (SearchPath.join directories))
    return .ok { gathered with directories }

end DirectoryList

end ManualPages
