import Mathlib.Data.List.Basic
import Mathlib.Data.List.Infix
import ManualPages.CachePath.Mapping

/-! # The record that serves a name

The cache path of a name is decided by the first record, in the order of the catalog, that a filter
lets through and whose hierarchy the name begins with, and by where the rest of the name is cut.
Both are told here without the searches of the code; later modules only speak of records that
serve and of texts that are put together.

* `Text.isPrefixOf?_eq_none_iff`, `isPrefixOf?_append` — texts that begin with others.
* `OwnerFilter.includes_all_iff` — the filters by the subjects that they let through.
* `Record.Eligible`, `Catalog.Serves` — the records that may serve a name, and the one that does.
* `serving?_eq_some_iff`, `serving?_isSome_iff` — the search for it.
* `cachePath?_of_serves`, `cachePath?_isSome_iff` — the cache path by that record.
* `cut_second_slash`, `cut_only_slash`, `formattedRest_nil` — where the rest of a name is cut.
* `ofName_of_mem`, `ofName_of_notMem` — names that are cut, and names that are not.
-/

namespace ManualPages

/-! ## Beginnings of texts -/

namespace Text

@[simp] theorem isPrefixOf?_append (start rest : Text) :
    start.isPrefixOf? (start ++ rest) = some rest :=
  List.isPrefixOf?_eq_some_iff_append_eq.mpr rfl

theorem isPrefixOf?_eq_none_iff {start t : Text} : start.isPrefixOf? t = none ↔ ¬ start <+: t := by
  rw [← Option.not_isSome_iff_eq_none, List.isSome_isPrefixOf?_eq_isPrefixOf,
    List.isPrefixOf_iff_prefix]

end Text

/-! ## Filters -/

namespace OwnerFilter

variable {subject : Subject}

theorem includes_user_iff : user.includes subject ↔ subject = .cacheMap .user := by
  cases subject with
  | cacheMap owner => cases owner <;> simp [includes]
  | sections _ | definition _ | programMap | mandatory => simp [includes]

theorem includes_system_iff : system.includes subject ↔ subject = .cacheMap .system := by
  cases subject with
  | cacheMap owner => cases owner <;> simp [includes]
  | sections _ | definition _ | programMap | mandatory => simp [includes]

theorem includes_all_iff : all.includes subject ↔ user.includes subject ∨ system.includes subject := by
  cases subject with
  | cacheMap owner => cases owner <;> simp [includes]
  | sections _ | definition _ | programMap | mandatory => simp [includes]

end OwnerFilter

def Record.Eligible (record : Record) (filter : OwnerFilter) (name : Text) : Prop :=
  filter.includes record.subject ∧ record.key <+: name

instance (record : Record) (filter : OwnerFilter) (name : Text) :
    Decidable (record.Eligible filter name) :=
  inferInstanceAs (Decidable (_ ∧ _))

theorem Record.eligible_all_iff {record : Record} {name : Text} :
    record.Eligible .all name ↔ record.Eligible .user name ∨ record.Eligible .system name := by
  rw [Eligible, OwnerFilter.includes_all_iff, or_and_right]
  rfl

namespace Catalog

/-! ## The search -/

section Search

variable (catalog : Catalog) (filter : OwnerFilter) (name : Text)

/-- The record is the first eligible one. -/
def Serves (record : Record) : Prop :=
  ∃ before behind, catalog.records = before ++ record :: behind ∧ record.Eligible filter name ∧
    ∀ earlier ∈ before, ¬ earlier.Eligible filter name

/-- What the search makes of a single record. -/
theorem offer_eq_some_iff (record found : Record) (rest : Text) :
    (if filter.includes record.subject then
        (record.key.isPrefixOf? name).map fun rest => (record, rest)
      else none) = some (found, rest) ↔
      record = found ∧ filter.includes record.subject ∧ name = record.key ++ rest := by
  by_cases included : filter.includes record.subject
  · simp [included, and_comm, eq_comm]
  · simp [included]

theorem offer_eq_none_iff (record : Record) :
    (if filter.includes record.subject then
        (record.key.isPrefixOf? name).map fun rest => (record, rest)
      else none) = none ↔ ¬ record.Eligible filter name := by
  by_cases included : filter.includes record.subject
  · rw [if_pos included, Option.map_eq_none_iff, Text.isPrefixOf?_eq_none_iff]
    simp [Record.Eligible, included]
  · simp [Record.Eligible, included]

theorem serving?_eq_some_iff (record : Record) (rest : Text) :
    catalog.serving? filter name = some (record, rest) ↔
      catalog.Serves filter name record ∧ name = record.key ++ rest := by
  rw [serving?, List.findSome?_eq_some_iff]
  simp only [offer_eq_some_iff, offer_eq_none_iff]
  constructor
  · rintro ⟨before, first, behind, split, ⟨rfl, included, whole⟩, passed⟩
    have begins : first.key <+: name := ⟨rest, whole.symm⟩
    exact ⟨⟨before, behind, split, ⟨included, begins⟩, passed⟩, whole⟩
  · rintro ⟨⟨before, behind, split, eligible, passed⟩, whole⟩
    exact ⟨before, record, behind, split, ⟨rfl, eligible.1, whole⟩, passed⟩

theorem serving?_isSome_iff :
    (catalog.serving? filter name).isSome ↔
      ∃ record ∈ catalog.records, record.Eligible filter name := by
  rw [← Option.ne_none_iff_isSome, ne_eq, serving?, List.findSome?_eq_none_iff]
  simp only [offer_eq_none_iff]
  push Not
  rfl

theorem exists_serves_iff :
    (∃ record, catalog.Serves filter name record) ↔
      ∃ record ∈ catalog.records, record.Eligible filter name := by
  constructor
  · rintro ⟨record, before, behind, split, eligible, -⟩
    exact ⟨record, by simp [split], eligible⟩
  · rw [← serving?_isSome_iff, Option.isSome_iff_exists]
    rintro ⟨⟨record, rest⟩, found⟩
    exact ⟨record, ((serving?_eq_some_iff catalog filter name record rest).mp found).1⟩

end Search

variable {catalog : Catalog} {filter : OwnerFilter} {name : Text} {record : Record}

theorem Serves.mem (serves : catalog.Serves filter name record) : record ∈ catalog.records := by
  obtain ⟨before, behind, split, -, -⟩ := serves
  simp [split]

theorem Serves.eligible (serves : catalog.Serves filter name record) :
    record.Eligible filter name := by
  obtain ⟨-, -, -, eligible, -⟩ := serves
  exact eligible

/-- Filters that let the same records through have one record that serves. -/
theorem Serves.of_eligible_iff {other : OwnerFilter}
    (same : ∀ record ∈ catalog.records, record.Eligible filter name ↔ record.Eligible other name)
    (serves : catalog.Serves filter name record) : catalog.Serves other name record := by
  obtain ⟨before, behind, split, eligible, passed⟩ := serves
  refine ⟨before, behind, split, (same record (by simp [split])).mp eligible, fun earlier member => ?_⟩
  rw [← same earlier (by simp [split, member])]
  exact passed earlier member

theorem Serves.unique {other : Record} (one : catalog.Serves filter name record)
    (another : catalog.Serves filter name other) : record = other := by
  -- both are what the one search finds
  obtain ⟨rest, whole⟩ := one.eligible.2
  obtain ⟨otherRest, otherWhole⟩ := another.eligible.2
  have found := (serving?_eq_some_iff catalog filter name record rest).mpr ⟨one, whole.symm⟩
  rw [(serving?_eq_some_iff catalog filter name other otherRest).mpr
    ⟨another, otherWhole.symm⟩] at found
  exact (Prod.mk.inj (Option.some.inj found)).1.symm

theorem cachePath?_of_serves (rest : Text)
    (serves : catalog.Serves filter (record.key ++ rest) record) :
    catalog.cachePath? (record.key ++ rest) filter =
      some (CachePath.ofName record.content (record.key ++ rest) rest) := by
  rw [cachePath?, (serving?_eq_some_iff catalog filter _ record rest).mpr ⟨serves, rfl⟩]
  rfl

theorem cachePath?_isSome_iff :
    (catalog.cachePath? name filter).isSome ↔
      ∃ record ∈ catalog.records, record.Eligible filter name := by
  rw [cachePath?, Option.isSome_map, serving?_isSome_iff]

end Catalog

/-! ## The cut -/

namespace CachePath

/-- A rest whose only slash is at its beginning is cut after that slash. -/
theorem cut_only_slash {last : Text} (noSlash : '/' ∉ last) : cut ('/' :: last) = (['/'], last) := by
  simp [cut, List.count_eq_zero_of_not_mem noSlash]

/-- A rest with two slashes or more is cut after the second-to-last one. -/
theorem cut_second_slash (before : Text) {middle last : Text} (noSlash : '/' ∉ middle)
    (noOther : '/' ∉ last) :
    cut (before ++ '/' :: (middle ++ '/' :: last)) =
      (before ++ ['/'], middle ++ '/' :: last) := by
  have one : (middle ++ '/' :: last).count '/' = 1 := by
    simp [List.count_eq_zero_of_not_mem noSlash, List.count_eq_zero_of_not_mem noOther]
  induction before with
  | nil => simp [cut, one]
  | cons c rest ih =>
    -- two slashes are still to come behind `c`, so `c` itself lies before the cut
    have two : (rest ++ '/' :: (middle ++ '/' :: last)).count '/' = rest.count '/' + 2 := by
      simp [one]
    have later : ¬ (c = '/' ∧ (rest ++ '/' :: (middle ++ '/' :: last)).count '/' ≤ 1) := by omega
    have enough : ¬ (c :: (rest ++ '/' :: (middle ++ '/' :: last))).count '/' ≤ 1 := by
      rw [List.count_cons]
      omega
    rw [List.cons_append, cut, if_neg later, if_neg enough, ih]
    rfl

@[simp] theorem formattedRest_nil : formattedRest [] = [] := rfl

theorem ofName_of_mem {name : Text} (slash : '/' ∈ name) (cache rest : Text) :
    ofName cache name rest = cache ++ formattedRest rest :=
  if_pos (List.contains_iff_mem.mpr slash)

/-- A name without slashes is not cut. -/
theorem ofName_of_notMem {name : Text} (noSlash : '/' ∉ name) (cache rest : Text) :
    ofName cache name rest = cache ++ rest :=
  if_neg (mt List.contains_iff_mem.mp noSlash)

theorem ofName_of_slash (cache key : Text) {rest : Text} (slash : '/' ∈ rest) :
    ofName cache (key ++ rest) rest = cache ++ formattedRest rest :=
  ofName_of_mem (List.mem_append_right key slash) cache rest

/-- The name of a hierarchy itself leads to its cache directory. -/
@[simp] theorem ofName_nil (cache name : Text) : ofName cache name [] = cache := by
  simp [ofName]

end CachePath

end ManualPages
