import ManualPages.CachePath.Legacy
import ManualPages.Catalog.Basic
import ManualPages.SearchPath

/-! # Cache paths

The records that map a hierarchy to its cache directory say where the formatted form of
a page or of a directory of pages is kept.

* `Catalog.serving?` — the record that serves a name.
* `cut`, `formattedTail` — where the rest of a name is cut, and what its end becomes.
* `Catalog.cachePath?` — the cache path of a name.
* `Catalog.isGlobal` — whether the system-wide file maps what a directory lies below.
* `Catalog.cacheSearchPath`, `Catalog.mappedHierarchies?` — the cache directories of a
  search path, and all hierarchies that are mapped.
-/

namespace ManualPages

namespace CachePath

/-- Cuts the rest of a name just after its second-to-last slash.  With one slash only it
    is cut after that one if the rest begins with it; otherwise all of it lies behind the cut. -/
def cut : Text → Text × Text
  | [] => ([], [])
  | c :: rest =>
    if c = '/' ∧ rest.count '/' ≤ 1 then ([c], rest)
    else if (c :: rest).count '/' ≤ 1 then ([], c :: rest)
    else (c :: (cut rest).1, (cut rest).2)

/-- The end of a name with the directory of pages, if it begins with one, renamed to the
    directory of formatted pages. -/
def formattedTail (tail : Text) : Text :=
  match Legacy.pages.isPrefixOf? tail with
  | some rest => Legacy.formatted ++ rest
  | none => tail

def formattedRest (rest : Text) : Text := (cut rest).1 ++ formattedTail (cut rest).2

/-- The cache path of a name whose hierarchy has a cache directory.  A name without any
    slash is not cut. -/
def ofName (cache name rest : Text) : Text :=
  if name.contains '/' then cache ++ formattedRest rest else cache ++ rest

end CachePath

namespace Catalog

/-- The first record that a filter lets through whose hierarchy a name begins with, and the
    rest of the name. -/
def serving? (catalog : Catalog) (filter : OwnerFilter) (name : Text) : Option (Record × Text) :=
  catalog.records.findSome? fun record =>
    if filter.includes record.subject then
      (record.key.isPrefixOf? name).map fun rest => (record, rest)
    else none

/-- The cache path of a page or of a directory of pages, if a record serves it. -/
def cachePath? (catalog : Catalog) (name : Text) (filter : OwnerFilter) : Option Text :=
  (catalog.serving? filter name).map fun (record, rest) =>
    CachePath.ofName record.content name rest

/-- Whether a directory begins with a hierarchy that the system-wide file maps. -/
def isGlobal (catalog : Catalog) (directory : Text) : Bool :=
  (catalog.recordsAbout (.cacheMap .system)).any (·.key.isPrefixOf directory)

/-- The cache directory of a directory: that of the per-user file, else that of the
    system-wide file, else the directory itself. -/
def cacheOf (catalog : Catalog) (directory : Text) : Text :=
  ((catalog.first? directory (.cacheMap .user)).or
    (catalog.first? directory (.cacheMap .system))).getD directory

/-- The cache directories of the directories of a search path. -/
def cacheSearchPath (catalog : Catalog) (path : Text) : Traced Text :=
  SearchPath.appendAllTraced [] ((SearchPath.entries path).map catalog.cacheOf)

/-- All hierarchies that have a cache directory, as a search path, if there are any. -/
def mappedHierarchies? (catalog : Catalog) : Traced (Option Text) := do
  let mapped := catalog.records.filter fun record => OwnerFilter.all.includes record.subject
  let path ← SearchPath.appendAllTraced [] (mapped.map (·.key))
  return SearchPath.nonEmpty? path

end Catalog

end ManualPages
