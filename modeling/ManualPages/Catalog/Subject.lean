import ManualPages.Text.Basic

/-! # Subjects of records

A configuration record is about a subject: what it declares and, where the per-user
file and the system-wide file are kept apart, which of the two declared it.

* `Owner` — the per-user or the system-wide file.
* `Subject` — what a record can be about, with names and labels in traces.
* `Subject.owner?`, `Subject.pair?` — which file, and a subject in both files.
* `OwnerFilter` — which cache maps a question is put to.
-/

namespace ManualPages

inductive Owner where
  | user
  | system
  deriving DecidableEq, Repr

def Owner.name : Owner → Text
  | .user => "user".toList
  | .system => "system".toList

inductive Subject where
  | sections (owner : Owner)
  | definition (owner : Owner)
  | cacheMap (owner : Owner)
  /-- The manual page hierarchy of a directory of programs. -/
  | programMap
  | mandatory
  deriving DecidableEq, Repr

namespace Subject

/-- The file that a record is kept apart by, for the subjects that tell the two apart. -/
def owner? : Subject → Option Owner
  | .sections owner | .definition owner | .cacheMap owner => some owner
  | .programMap | .mandatory => none

/-- Whether a record comes from the per-user file for certain. -/
def isUser (subject : Subject) : Bool := subject.owner? = some .user

/-- A subject in the per-user and in the system-wide file, for the subjects that tell the two
    apart. -/
def pair? : Subject → Option (Subject × Subject)
  | .sections _ => some (.sections .user, .sections .system)
  | .definition _ => some (.definition .user, .definition .system)
  | .cacheMap _ => some (.cacheMap .user, .cacheMap .system)
  | .programMap | .mandatory => none

def name : Subject → Text
  | .sections .user => "section_user".toList
  | .sections .system => "section".toList
  | .definition .user => "define_user".toList
  | .definition .system => "define".toList
  | .cacheMap .user => "mandb_map_user".toList
  | .cacheMap .system => "mandb_map".toList
  | .programMap => "manpath_map".toList
  | .mandatory => "mandatory".toList

def label : Subject → Text
  | .sections .user => "SectionUser".toList
  | .sections .system => "Section".toList
  | .definition .user => "DefineUser".toList
  | .definition .system => "Define".toList
  | .cacheMap .user => "MandbMapUser".toList
  | .cacheMap .system => "MandbMap".toList
  | .programMap => "ManpathMap".toList
  | .mandatory => "Mandatory".toList

def all : List Subject :=
  [.sections .user, .sections .system, .definition .user, .definition .system,
   .cacheMap .user, .cacheMap .system, .programMap, .mandatory]

def ofName? (t : Text) : Option Subject := all.find? (·.name = t)

end Subject

/-- Which cache maps a question is put to. -/
inductive OwnerFilter where
  | system
  | user
  | all
  deriving DecidableEq, Repr, Inhabited

namespace OwnerFilter

def name : OwnerFilter → Text
  | .system => "system".toList
  | .user => "user".toList
  | .all => "all".toList

def ofName? (t : Text) : Option OwnerFilter :=
  [.system, .user, .all].find? (·.name = t)

/-- Whether records of a subject answer a question put through a filter. -/
def includes (filter : OwnerFilter) : Subject → Bool
  | .cacheMap .system => filter = .system || filter = .all
  | .cacheMap .user => filter = .user || filter = .all
  | _ => false

end OwnerFilter

end ManualPages
