import ManualPages.Diagnostics.Traced

/-! # The catalog

The records of the configuration in the order in which they were added.  Several may have
one key and subject; the first of them is the definition, all of them are the mappings.

* `Record`, `Catalog` — a record, and all records in order.
* `Catalog.add`, `addTraced` — one more record at the end.
* `recordsOf`, `first?` — the records of a key, and the first of them.
* `recordsAbout` — the records of a subject.
* `next?` — the next record of a key after a position, to walk over them.
* `effective`, `keysAbout` — the subject that counts, and its keys without repetition.
-/

namespace ManualPages

structure Record where
  /-- A directory, the name of a definition, or a section. -/
  key : Text
  content : Text
  subject : Subject
  deriving DecidableEq, Repr

def Record.hasKey (record : Record) (key : Text) (subject : Subject) : Bool :=
  record.subject = subject && record.key = key

/-- The records of the configuration, the first added first. -/
structure Catalog where
  records : List Record := []
  deriving DecidableEq, Repr

/-- The position of a record, after which a search is taken up again. -/
structure Bookmark where
  position : Nat
  deriving DecidableEq, Repr

namespace Catalog

/-! ## Adding -/

def add (catalog : Catalog) (key content : Text) (subject : Subject) : Catalog :=
  ⟨catalog.records ++ [⟨key, content, subject⟩]⟩

/-- Adds a record at the end and tells of it. -/
def addTraced (catalog : Catalog) (key content : Text) (subject : Subject) : Traced Catalog :=
  ⟨catalog.add key content subject, [.recordAdded key content subject]⟩

def size (catalog : Catalog) : Nat := catalog.records.length

/-! ## Asking -/

def recordsOf (catalog : Catalog) (key : Text) (subject : Subject) : List Record :=
  catalog.records.filter (·.hasKey key subject)

/-- The content of the first record of a key and a subject. -/
def first? (catalog : Catalog) (key : Text) (subject : Subject) : Option Text :=
  (catalog.records.find? (·.hasKey key subject)).map (·.content)

def recordsAbout (catalog : Catalog) (subject : Subject) : List Record :=
  catalog.records.filter (·.subject = subject)

/-- The first record of a key and a subject in a list, with its position, which is
    counted from `position`. -/
def search (key : Text) (subject : Subject) (position : Nat) :
    List Record → Option (Bookmark × Record)
  | [] => none
  | record :: rest =>
    if record.hasKey key subject then some (⟨position⟩, record)
    else search key subject (position + 1) rest

/-- The next record of a key and a subject after a position, or the first one. -/
def next? (catalog : Catalog) (key : Text) (subject : Subject) (after? : Option Bookmark) :
    Option (Bookmark × Record) :=
  let start := after?.elim 0 (·.position + 1)
  search key subject start (catalog.records.drop start)

/-- The subject that counts for a question about one.  Sections and definitions of the
    per-user file, if there are any, stand in for all of the system-wide file. -/
def effective (catalog : Catalog) (subject : Subject) : Subject :=
  let ofUserIfAny (user system : Subject) :=
    if (catalog.recordsAbout user).isEmpty then system else user
  match subject with
  | .sections _ => ofUserIfAny (.sections .user) (.sections .system)
  | .definition _ => ofUserIfAny (.definition .user) (.definition .system)
  | .cacheMap owner => .cacheMap owner
  | .programMap => .programMap
  | .mandatory => .mandatory

/-- The keys of the subject that counts, without repetition, in the order of their first
    records. -/
def keysAbout (catalog : Catalog) (subject : Subject) : List Text :=
  ((catalog.recordsAbout (catalog.effective subject)).map (·.key)).eraseDups

end Catalog

end ManualPages
