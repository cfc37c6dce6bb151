import ManualPages.Proofs.CachePath.Containment

/-! # Directories that are global

Whether a directory is global is decided by the hierarchies that the system-wide file maps, and by
nothing but the characters that it begins with.  A directory that begins with a hierarchy lies below
it or beside it (`beside_iff`), and the answer does not tell the two apart.  So it is wrong exactly
for directories that lie beside some mapped hierarchy and below none.

* `Beside` — paths that go on behind a directory without a slash.
* `beside_append_iff`, `beside_iff` — a path that begins with a directory is below it or beside it.
* `SystemMaps`, `LiesBelowMap`, `OnlyBesideMaps` — where a directory lies among the mapped hierarchies.
* `isGlobal_below_iff` — when a global directory does lie below a mapped hierarchy.
* `isGlobal_of_longer_name` — a global directory that does not.
-/

namespace ManualPages

namespace CachePath

/-! ## Below and beside -/

/-- The path goes on in the last name of the directory, which makes it another name. -/
inductive Beside (directory : Text) : Text → Prop
  | intro {c : Char} (letter : c ≠ '/') (unended : directory.getLast? ≠ some '/') (rest : Text) :
      Beside directory (directory ++ c :: rest)

variable {directory path : Text}

theorem beside_append_iff {rest : Text} :
    Beside directory (directory ++ rest) ↔
      rest ≠ [] ∧ rest.head? ≠ some '/' ∧ directory.getLast? ≠ some '/' := by
  constructor
  · intro beside
    generalize same : directory ++ rest = path at beside
    cases beside with
    | @intro c letter unended others =>
      obtain rfl := List.append_cancel_left same
      exact ⟨List.cons_ne_nil c others, by simpa using letter, unended⟩
  · rintro ⟨nonempty, letter, unended⟩
    cases rest with
    | nil => contradiction
    | cons c others => exact .intro (by simpa using letter) unended others

theorem beside_iff (begins : directory <+: path) : Beside directory path ↔ ¬ Within directory path := by
  obtain ⟨rest, rfl⟩ := begins
  rw [beside_append_iff, within_append_iff]
  tauto

end CachePath

namespace Catalog

/-! ## Mapped hierarchies -/

open CachePath (Within Beside beside_iff beside_append_iff)

section Maps

variable (catalog : Catalog)

/-- The system-wide file maps the hierarchy. -/
def SystemMaps (hierarchy : Text) : Prop :=
  ∃ record ∈ catalog.records, record.subject = .cacheMap .system ∧ record.key = hierarchy

/-- The directory is a hierarchy that the system-wide file maps, or lies below one. -/
def LiesBelowMap (directory : Text) : Prop :=
  ∃ hierarchy, catalog.SystemMaps hierarchy ∧ Within hierarchy directory

/-- The name of the directory goes on where that of a mapped hierarchy ends, and the directory does
    not lie below any other one. -/
structure OnlyBesideMaps (directory : Text) : Prop where
  beside : ∃ hierarchy, catalog.SystemMaps hierarchy ∧ Beside hierarchy directory
  notBelow : ¬ catalog.LiesBelowMap directory

end Maps

variable {catalog : Catalog} {directory : Text}

theorem isGlobal_iff_prefix :
    catalog.isGlobal directory ↔ ∃ hierarchy, catalog.SystemMaps hierarchy ∧ hierarchy <+: directory := by
  rw [isGlobal_iff]
  simp only [Record.Eligible, OwnerFilter.includes_system_iff, SystemMaps]
  constructor
  · rintro ⟨record, member, systemMap, begins⟩
    exact ⟨record.key, ⟨record, member, systemMap, rfl⟩, begins⟩
  · rintro ⟨hierarchy, ⟨record, member, systemMap, rfl⟩, begins⟩
    exact ⟨record, member, systemMap, begins⟩

theorem isGlobal_of_beside (beside : ∃ hierarchy, catalog.SystemMaps hierarchy ∧
    Beside hierarchy directory) : catalog.isGlobal directory := by
  obtain ⟨hierarchy, mapped, next⟩ := beside
  cases next with
  | intro letter unended rest =>
    exact isGlobal_iff_prefix.mpr ⟨hierarchy, mapped, List.prefix_append hierarchy _⟩

/-- A directory is global exactly if it begins with a hierarchy that the system-wide file maps, and
    then lies below that hierarchy or beside it.  So what is global does lie below a mapped
    hierarchy, except exactly where it lies beside one and below none. -/
theorem isGlobal_below_iff (catalog : Catalog) (directory : Text) :
    (catalog.isGlobal directory = true ↔ ∃ hierarchy, catalog.SystemMaps hierarchy ∧
      (hierarchy <+: directory ∧ Within hierarchy directory ∨ Beside hierarchy directory)) ∧
    ((catalog.isGlobal directory = true → catalog.LiesBelowMap directory) ↔
      ¬ catalog.OnlyBesideMaps directory) := by
  have global : catalog.isGlobal directory = true ↔ ∃ hierarchy, catalog.SystemMaps hierarchy ∧
      (hierarchy <+: directory ∧ Within hierarchy directory ∨ Beside hierarchy directory) := by
    constructor
    · intro answer
      obtain ⟨hierarchy, mapped, begins⟩ := isGlobal_iff_prefix.mp answer
      refine ⟨hierarchy, mapped, ?_⟩
      by_cases within : Within hierarchy directory
      · exact .inl ⟨begins, within⟩
      · exact .inr ((beside_iff begins).mpr within)
    · rintro ⟨hierarchy, mapped, ⟨begins, -⟩ | beside⟩
      · exact isGlobal_iff_prefix.mpr ⟨hierarchy, mapped, begins⟩
      · exact isGlobal_of_beside ⟨hierarchy, mapped, beside⟩
  refine ⟨global, fun sound only => ?_, fun notOnly answer => ?_⟩
  · exact only.notBelow (sound (isGlobal_of_beside only.beside))
  · -- the hierarchy behind the answer has the directory below it, or some other one has to
    obtain ⟨hierarchy, mapped, ⟨-, within⟩ | beside⟩ := global.mp answer
    · exact ⟨hierarchy, mapped, within⟩
    · by_contra notBelow
      exact notOnly ⟨⟨hierarchy, mapped, beside⟩, notBelow⟩

/-- A load of a system-wide file with one hierarchy. -/
def oneHierarchy : Attempt := .ofTexts "" (some "MANDB_MAP /usr/share/man /var/cache/man\n")

/-- A directory beside the only mapped hierarchy, with a name that begins like that of the hierarchy. -/
theorem isGlobal_of_longer_name :
    let catalog := (oneHierarchy.run .empty).state.catalog
    let directory := "/usr/share/manual".toList
    (oneHierarchy.run .empty).failure? = none ∧ catalog.isGlobal directory = true ∧
      Beside "/usr/share/man".toList directory ∧ ¬ catalog.LiesBelowMap directory := by
  intro catalog directory
  have read : catalog.records =
      [⟨"/usr/share/man".toList, "/var/cache/man".toList, .cacheMap .system⟩] := by decide
  have beside : Beside "/usr/share/man".toList ("/usr/share/man".toList ++ "ual".toList) :=
    beside_append_iff.mpr ⟨by decide, by decide, by decide⟩
  refine ⟨by decide, by decide, beside, ?_⟩
  rintro ⟨hierarchy, ⟨record, member, -, rfl⟩, within⟩
  rw [read, List.mem_singleton] at member
  subst member
  exact absurd within (by decide)

end Catalog

end ManualPages
