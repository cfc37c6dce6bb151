import Mathlib.Data.List.DropRight
import ManualPages.Proofs.CachePath.Distinctness
import ManualPages.Proofs.CachePath.Precedence

/-! # Cache paths below the cache directory

A cache path is the cache directory with the rest of the name put behind it, and nothing is put
between the two.  So whether the path lies below the cache directory depends on the joint alone:
there has to be a slash at it, from the one side or the other.  `within_append_iff` says this of
any directory and any rest; it answers for the name below its hierarchy as well as for the path
below the cache directory.

* `trunk`, `Within` — a directory without the slashes at its end, and the paths below it.
* `formattedRest_eq_nil_iff`, `head?_formattedRest` — renaming does not change how a rest begins.
* `LosesJoint` — where the slash of a hierarchy is the only one at the joint.
* `within_cachePath?_iff` — a page below a hierarchy is cached below its cache directory exactly if
  the joint is not lost.
-/

namespace ManualPages

namespace CachePath

/-! ## Paths below a directory -/

def trunk (directory : Text) : Text := directory.rdropWhile (· = '/')

/-- The path is the directory or lies below it, slashes at the end of the directory left out. -/
def Within (directory path : Text) : Prop :=
  path = trunk directory ∨ trunk directory ++ ['/'] <+: path

instance (directory path : Text) : Decidable (Within directory path) :=
  inferInstanceAs (Decidable (_ ∨ _))

theorem trunk_of_last {directory : Text} (noSlash : directory.getLast? ≠ some '/') :
    trunk directory = directory := by
  rw [trunk, List.rdropWhile_eq_self_iff]
  intro nonempty last
  have same : directory.getLast nonempty = '/' := by simpa using last
  exact noSlash (by rw [List.getLast?_eq_some_getLast nonempty, same])

theorem trunk_concat_slash (directory : Text) : trunk (directory ++ ['/']) = trunk directory :=
  List.rdropWhile_concat_pos _ _ _ (by simp)

theorem slash_behind_trunk {directory : Text} (slash : directory.getLast? = some '/') :
    trunk directory ++ ['/'] <+: directory := by
  induction directory using List.reverseRecOn with
  | nil => simp at slash
  | append_singleton before c ih =>
    obtain rfl : c = '/' := by simpa using slash
    rw [trunk_concat_slash]
    by_cases again : before.getLast? = some '/'
    · exact (ih again).trans (List.prefix_append before ['/'])
    · rw [trunk_of_last again]

theorem append_slash_prefix_append_iff (directory rest : Text) :
    directory ++ ['/'] <+: directory ++ rest ↔ rest.head? = some '/' := by
  rw [List.prefix_append_right_inj]
  cases rest <;> simp [eq_comm]

theorem within_append_iff (directory rest : Text) :
    Within directory (directory ++ rest) ↔
      rest = [] ∨ rest.head? = some '/' ∨ directory.getLast? = some '/' := by
  by_cases slash : directory.getLast? = some '/'
  · have below := (slash_behind_trunk slash).trans (List.prefix_append directory rest)
    exact iff_of_true (.inr below) (.inr (.inr slash))
  · -- the directory is its own trunk, so only the rest can bring the slash
    rw [Within, trunk_of_last slash, append_slash_prefix_append_iff]
    simp [slash]

/-! ## How a rest begins -/

theorem formattedRest_eq_nil_iff {rest : Text} : formattedRest rest = [] ↔ rest = [] := by
  rw [← slashes_eq_nil_iff, slashes_formattedRest, slashes_eq_nil_iff]

theorem head?_formattedRest (rest : Text) :
    (formattedRest rest).head? = some '/' ↔ rest.head? = some '/' := by
  rw [← head?_slashes, slashes_formattedRest, head?_slashes]

/-- The path lies below the cache directory if there is a slash at the joint. -/
theorem within_ofName_iff (cache key rest : Text) :
    Within cache (ofName cache (key ++ rest) rest) ↔
      rest = [] ∨ rest.head? = some '/' ∨ cache.getLast? = some '/' := by
  unfold ofName
  split
  · rw [within_append_iff, formattedRest_eq_nil_iff, head?_formattedRest]
  · exact within_append_iff cache rest

end CachePath

/-! ## The joint -/

open CachePath (Within within_append_iff within_ofName_iff)

/-- The slash between a hierarchy and what is below it belongs to the hierarchy as it is written,
    so it is not in the rest of the name, and the cache directory does not bring another one. -/
structure Record.LosesJoint (record : Record) (name : Text) : Prop where
  inHierarchy : record.key.getLast? = some '/'
  notInCache : record.content.getLast? ≠ some '/'
  goesOn : name ≠ record.key
  notInRest : ¬ record.key ++ ['/'] <+: name

theorem Record.losesJoint_iff {record : Record} {rest : Text} :
    record.LosesJoint (record.key ++ rest) ↔
      record.key.getLast? = some '/' ∧ record.content.getLast? ≠ some '/' ∧ rest ≠ [] ∧
        rest.head? ≠ some '/' := by
  have begins := CachePath.append_slash_prefix_append_iff record.key rest
  constructor
  · rintro ⟨inHierarchy, notInCache, goesOn, notInRest⟩
    exact ⟨inHierarchy, notInCache, by simpa using goesOn, fun slash => notInRest (begins.mpr slash)⟩
  · rintro ⟨inHierarchy, notInCache, goesOn, notInRest⟩
    exact ⟨inHierarchy, notInCache, by simpa using goesOn, fun slash => notInRest (begins.mp slash)⟩

/-- A name that a record serves has a cache path.  If the name lies below the hierarchy of the
    record, the path lies below its cache directory, except exactly where the joint is lost. -/
theorem within_cachePath?_iff (catalog : Catalog) (filter : OwnerFilter) (name : Text)
    (record : Record) (serves : catalog.Serves filter name record) :
    ∃ path, catalog.cachePath? name filter = some path ∧
      ((Within record.key name → Within record.content path) ↔ ¬ record.LosesJoint name) := by
  obtain ⟨rest, rfl⟩ := serves.eligible.2
  refine ⟨_, Catalog.cachePath?_of_serves rest serves, ?_⟩
  -- name and path have the same rest, so only the ends of the two directories tell them apart
  rw [within_append_iff, within_ofName_iff, Record.losesJoint_iff]
  tauto

/-- A load of a system-wide file that writes a hierarchy with a slash at its end. -/
def slashAtTheEnd : Attempt := .ofTexts "" (some "MANDB_MAP /usr/man/ /var/cache/man\n")

/-- The cache path of a page beside the cache directory that is declared for its hierarchy. -/
theorem cachePath?_beside_of_lost_joint :
    let catalog := (slashAtTheEnd.run .empty).state.catalog
    let record : Record := ⟨"/usr/man/".toList, "/var/cache/man".toList, .cacheMap .system⟩
    let name := "/usr/man/man1/ls.1".toList
    (slashAtTheEnd.run .empty).failure? = none ∧
      catalog.Serves .all name record ∧
      Within record.key name ∧
      catalog.cachePath? name .all = some "/var/cache/mancat1/ls.1".toList ∧
      ¬ Within record.content "/var/cache/mancat1/ls.1".toList := by
  intro catalog record name
  have serves : catalog.Serves .all name record := ⟨[], [], by decide, by decide, by simp⟩
  exact ⟨by decide, serves, by decide, by decide, by decide⟩

/-- A hierarchy with two slashes at its end, whose cache directory has one. -/
def slashesAtTheEnds : Record := ⟨"/usr/man//".toList, "/var/cache/".toList, .cacheMap .user⟩

/-- A translated page of that hierarchy, where the cache directory brings the slash. -/
theorem within_cachePath?_of_slashes :
    let catalog : Catalog :=
      ⟨[⟨"/usr".toList, "/mine".toList, .programMap⟩, slashesAtTheEnds]⟩
    let name := "/usr/man//de/man1/ls.1".toList
    catalog.Serves .user name slashesAtTheEnds ∧ Within slashesAtTheEnds.key name ∧
      ∃ path, catalog.cachePath? name .user = some path ∧
        Within slashesAtTheEnds.content path ∧ path = "/var/cache/de/cat1/ls.1".toList := by
  intro catalog name
  have serves : catalog.Serves .user name slashesAtTheEnds :=
    ⟨[_], [], rfl, by decide, by decide⟩
  have inside : Within slashesAtTheEnds.key name := by decide
  obtain ⟨path, made, exact⟩ := within_cachePath?_iff catalog .user name slashesAtTheEnds serves
  have joined : ¬ slashesAtTheEnds.LosesJoint name := by
    intro lost
    exact lost.notInCache (by decide)
  refine ⟨serves, inside, path, made, exact.mpr joined inside, ?_⟩
  have value : catalog.cachePath? name .user = some "/var/cache/de/cat1/ls.1".toList := by decide
  exact Option.some.inj (made.symm.trans value)

end ManualPages
