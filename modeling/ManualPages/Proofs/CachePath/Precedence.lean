import ManualPages.Proofs.CachePath.Serving
import ManualPages.Proofs.Configuration.SystemAnswers
import ManualPages.Proofs.SearchPath.Appending

/-! # Precedence among cache maps

Cache paths are looked up in the order of the catalog, and nothing in the search itself prefers one
file to the other.  The per-user file wins because a load reads it first: `userMapsFirst_of_load`
is the invariant that carries both main results.

* `Catalog.UserMapsFirst` — no map of the per-user file comes after one of the system-wide file.
* `serves_all_of_serves_user`, `serving?_all` — the search under both files by the two separate ones.
* `first?_of_serves` — the record that serves a name that is a hierarchy, as a definition of it.
* `cachePath?_all_of_load` — a map of the per-user file shadows those of the system-wide file.
* `cachePath?_eq_cacheSearchPath` — the cache path and the cache search path of a hierarchy agree.
-/

namespace ManualPages

namespace Catalog

/-! ## The order of maps -/

def UserMapsFirst (catalog : Catalog) : Prop :=
  catalog.records.Pairwise fun earlier later =>
    later.subject = .cacheMap .user → earlier.subject ≠ .cacheMap .system

variable {catalog : Catalog} {name : Text} {record : Record}

theorem serves_all_of_serves_user (ordered : catalog.UserMapsFirst)
    (serves : catalog.Serves .user name record) : catalog.Serves .all name record := by
  obtain ⟨before, behind, split, eligible, passed⟩ := serves
  have userMap : record.subject = .cacheMap .user := OwnerFilter.includes_user_iff.mp eligible.1
  refine ⟨before, behind, split, Record.eligible_all_iff.mpr (.inl eligible), ?_⟩
  intro earlier member eligibleEarlier
  obtain ofUser | ofSystem := Record.eligible_all_iff.mp eligibleEarlier
  · exact passed earlier member ofUser
  · -- a system-wide map in front of a map of the per-user file
    rw [UserMapsFirst, split, List.pairwise_append] at ordered
    have apart := ordered.2.2 earlier member record List.mem_cons_self userMap
    exact apart (OwnerFilter.includes_system_iff.mp ofSystem.1)

/-- Where the per-user file has no map for a name, it makes no difference to the search. -/
theorem serves_all_iff_of_no_user (absent : ∀ record ∈ catalog.records, ¬ record.Eligible .user name) :
    catalog.Serves .all name record ↔ catalog.Serves .system name record := by
  have same (record : Record) (member : record ∈ catalog.records) :
      record.Eligible .all name ↔ record.Eligible .system name := by
    rw [Record.eligible_all_iff]
    exact or_iff_right (absent record member)
  constructor
  · exact Serves.of_eligible_iff same
  · exact Serves.of_eligible_iff fun record member => (same record member).symm

theorem serving?_all (ordered : catalog.UserMapsFirst) (name : Text) :
    catalog.serving? .all name = (catalog.serving? .user name).or (catalog.serving? .system name) := by
  cases found : catalog.serving? .user name with
  | some served =>
    obtain ⟨serves, whole⟩ := (serving?_eq_some_iff catalog .user name served.1 served.2).mp found
    rw [Option.some_or]
    exact (serving?_eq_some_iff catalog .all name served.1 served.2).mpr
      ⟨serves_all_of_serves_user ordered serves, whole⟩
  | none =>
    have absent : ∀ record ∈ catalog.records, ¬ record.Eligible .user name := by
      intro record member eligible
      have served := (serving?_isSome_iff catalog .user name).mpr ⟨record, member, eligible⟩
      simp [found] at served
    rw [Option.none_or]
    ext ⟨record, rest⟩
    rw [serving?_eq_some_iff, serving?_eq_some_iff, serves_all_iff_of_no_user absent]

theorem isGlobal_iff :
    catalog.isGlobal name ↔ ∃ record ∈ catalog.records, record.Eligible .system name := by
  simp [isGlobal, recordsAbout, Record.Eligible, OwnerFilter.includes_system_iff]

/-! ## Exact keys -/

/-- The first record that serves a hierarchy by its own name is the first one of that key. -/
theorem first?_of_serves {filter : OwnerFilter} (serves : catalog.Serves filter record.key record) :
    catalog.first? record.key record.subject = some record.content := by
  obtain ⟨before, behind, split, eligible, passed⟩ := serves
  have skipped : ∀ earlier ∈ before, ¬ earlier.hasKey record.key record.subject := by
    intro earlier member same
    obtain ⟨sameSubject, sameKey⟩ : earlier.subject = record.subject ∧ earlier.key = record.key := by
      simpa [Record.hasKey] using same
    refine passed earlier member ⟨?_, ?_⟩
    · rw [sameSubject]
      exact eligible.1
    · rw [sameKey]
  have notBefore : before.find? (·.hasKey record.key record.subject) = none :=
    List.find?_eq_none.mpr skipped
  have here : record.hasKey record.key record.subject := by simp [Record.hasKey]
  simp [first?, split, notBefore, here]

theorem first?_eq_none_of_absent {key : Text} {subject : Subject}
    (absent : ∀ record ∈ catalog.records, record.subject = subject → record.key ≠ key) :
    catalog.first? key subject = none := by
  simpa [first?, Record.hasKey] using absent

/-- The cache directory of a name is that of the record that serves it by its own name. -/
theorem cacheOf_of_serves (ordered : catalog.UserMapsFirst)
    (serves : catalog.Serves .all record.key record) : catalog.cacheOf record.key = record.content := by
  have first := first?_of_serves serves
  obtain ofUser | ofSystem := OwnerFilter.includes_all_iff.mp serves.eligible.1
  · rw [OwnerFilter.includes_user_iff.mp ofUser] at first
    simp [cacheOf, first]
  · rw [OwnerFilter.includes_system_iff.mp ofSystem] at first
    -- a map of the per-user file would serve the name too, and come first
    have noUserMap : catalog.first? record.key (.cacheMap .user) = none := by
      refine first?_eq_none_of_absent fun other member userMap sameKey => ?_
      have eligible : other.Eligible .user record.key :=
        ⟨OwnerFilter.includes_user_iff.mpr userMap, by rw [sameKey]⟩
      obtain ⟨shadow, shadows⟩ := (exists_serves_iff catalog .user record.key).mpr
        ⟨other, member, eligible⟩
      obtain rfl : shadow = record := (serves_all_of_serves_user ordered shadows).unique serves
      have both := OwnerFilter.includes_user_iff.mp shadows.eligible.1
      rw [OwnerFilter.includes_system_iff.mp ofSystem] at both
      contradiction
    simp [cacheOf, first, noUserMap]

theorem cacheSearchPath_of_entry {directory : Text} (nonempty : directory ≠ [])
    (whole : ':' ∉ directory) :
    (catalog.cacheSearchPath directory).value = catalog.cacheOf directory := by
  simp [cacheSearchPath, SearchPath.entries_of_whole nonempty whole, SearchPath.appendAll]

end Catalog

/-! ## The order after a load -/

/-- What a file declares about cache maps, it declares as its own. -/
theorem TextFile.cacheMap_of_mem {file : TextFile} {record : Record} {owner : Owner}
    (member : record ∈ file.entries.flatMap Entry.records) (map : record.subject = .cacheMap owner) :
    owner = file.source.owner := by
  obtain ⟨entry, read, declared⟩ := List.mem_flatMap.mp member
  obtain ⟨declaration, -, rfl⟩ := List.mem_map.mp read
  obtain unowned | owned := Entry.owner_of_mem_records declared
  · simp [map, Subject.owner?] at unowned
  · simpa [map, Subject.owner?] using owned

theorem systemFile?_owner {tree : FileTree} {options : ConfigFiles} {env : Environment}
    {file : TextFile} (found : systemFile? tree options env = some file) :
    file.source.owner = .system := by
  rw [systemFile?] at found
  split at found
  · contradiction
  · obtain ⟨text, -, rfl⟩ := Option.map_eq_some_iff.mp found
    rfl

/-- The records of an optional file, none of which is a cache map of the other file. -/
theorem cacheMap_ne_of_mem {file? : Option TextFile} {owner other : Owner} (apart : owner ≠ other)
    (owned : ∀ file, file? = some file → file.source.owner = owner) {record : Record}
    (member : record ∈ (file?.toList.flatMap TextFile.entries).flatMap Entry.records) :
    record.subject ≠ .cacheMap other := by
  intro map
  rw [List.flatMap_assoc] at member
  obtain ⟨file, found, declared⟩ := List.mem_flatMap.mp member
  have foreign := TextFile.cacheMap_of_mem declared map
  rw [owned file (Option.mem_toList.mp found)] at foreign
  exact apart foreign.symm

/-- A load reads the per-user file first, so its maps come first. -/
theorem userMapsFirst_of_load {start : Configuration} (new : start = .empty ∨ ∃ used, start = .reset used)
    (attempt : Attempt) (loads : (attempt.run start).failure? = none) :
    (attempt.run start).state.catalog.UserMapsFirst := by
  obtain rfl : start = .empty := by
    rcases new with rfl | ⟨used, rfl⟩ <;> rfl
  rw [run_of_unloaded attempt rfl] at loads ⊢
  have whole : attempt.reading = ⟨_, _, none⟩ :=
    Reading.ofFiles_of_complete attempt.tree attempt.options attempt.env loads
  simp only [Catalog.UserMapsFirst, whole, Configuration.after, Configuration.empty, filesRead,
    List.nil_append, List.flatMap_append, List.pairwise_append]
  have userRecords {record : Record} := @cacheMap_ne_of_mem
    (userFile? attempt.tree attempt.options attempt.env) .user .system (by decide)
    (fun _ found => userFile?_owner found) record
  have systemRecords {record : Record} := @cacheMap_ne_of_mem
    (systemFile? attempt.tree attempt.options attempt.env) .system .user (by decide)
    (fun _ found => systemFile?_owner found) record
  refine ⟨?_, ?_, ?_⟩
  · exact List.pairwise_of_forall_mem_list fun earlier member _ _ _ => userRecords member
  · exact List.pairwise_of_forall_mem_list fun _ _ later member map =>
      absurd map (systemRecords member)
  · exact fun earlier member _ _ _ => userRecords member

/-! ## The answers after a load -/

/-- After a load the per-user file shadows the system-wide file: the cache path under both is that
    of the per-user file, if it has any, whatever prefixes of the name the system-wide file maps.
    A name is global exactly if the system-wide file has a cache path for it. -/
theorem cachePath?_all_of_load {start : Configuration}
    (new : start = .empty ∨ ∃ used, start = .reset used) (attempt : Attempt)
    (loads : (attempt.run start).failure? = none) (name : Text) :
    let catalog := (attempt.run start).state.catalog
    catalog.cachePath? name .all =
      (catalog.cachePath? name .user).or (catalog.cachePath? name .system) ∧
    (catalog.isGlobal name ↔ (catalog.cachePath? name .system).isSome) ∧
    ∀ map ∈ catalog.records, map.subject = .cacheMap .user → map.key <+: name →
      ∃ record, catalog.Serves .all name record ∧ record.subject = .cacheMap .user := by
  intro catalog
  have ordered : catalog.UserMapsFirst := userMapsFirst_of_load new attempt loads
  refine ⟨?_, ?_, fun map member userMap begins => ?_⟩
  · simp only [Catalog.cachePath?, Catalog.serving?_all ordered, Option.map_or]
  · rw [Catalog.isGlobal_iff, Catalog.cachePath?_isSome_iff]
  · have eligible : map.Eligible .user name := ⟨OwnerFilter.includes_user_iff.mpr userMap, begins⟩
    obtain ⟨record, serves⟩ :=
      (Catalog.exists_serves_iff catalog .user name).mpr ⟨map, member, eligible⟩
    exact ⟨record, Catalog.serves_all_of_serves_user ordered serves,
      OwnerFilter.includes_user_iff.mp serves.eligible.1⟩

/-- A load on a configuration that was loaded before and is reset, where the system-wide file maps
    a longer prefix of the name than the per-user file. -/
theorem cachePath?_all_of_longer_key :
    let start := (withoutUserMaps.run .empty).state.reset
    let catalog := (withUserMaps.run start).state.catalog
    let name := "/usr/man/man1".toList
    (withUserMaps.run start).failure? = none ∧
      catalog.cachePath? name .user = some "/mine/cat/man1".toList ∧
      catalog.cachePath? name .system = some "/var/cache/cat1".toList ∧
      catalog.cachePath? name .all = some "/mine/cat/man1".toList ∧
      (catalog.isGlobal name ↔ (catalog.cachePath? name .system).isSome) ∧
      ∃ record, catalog.Serves .all name record ∧ record.subject = .cacheMap .user := by
  intro start catalog name
  have loads : (withUserMaps.run start).failure? = none := by decide
  have ofUser : catalog.cachePath? name .user = some "/mine/cat/man1".toList := by decide
  obtain ⟨both, global, shadowed⟩ := cachePath?_all_of_load (.inr ⟨_, rfl⟩) withUserMaps loads name
  refine ⟨loads, ofUser, by decide, ?_, global, ?_⟩
  · rw [both, ofUser]
    rfl
  · exact shadowed ⟨"/usr".toList, "/mine".toList, .cacheMap .user⟩ (by decide) rfl (by decide)

/-- After a load the cache path of a directory is also its cache search path, if no shorter prefix
    of the directory is mapped; and the directory stands for itself if nothing maps it at all. -/
theorem cachePath?_eq_cacheSearchPath (attempt : Attempt)
    (loads : (attempt.run .empty).failure? = none) (directory : Text) (nonempty : directory ≠ [])
    (whole : ':' ∉ directory)
    (exact : ∀ map ∈ (attempt.run .empty).state.catalog.records,
      map.Eligible .all directory → map.key = directory) :
    let catalog := (attempt.run .empty).state.catalog
    ((∃ map ∈ catalog.records, map.Eligible .all directory) →
      catalog.cachePath? directory .all = some (catalog.cacheSearchPath directory).value) ∧
    ((¬ ∃ map ∈ catalog.records, map.Eligible .all directory) →
      catalog.cachePath? directory .all = none ∧
        (catalog.cacheSearchPath directory).value = directory) := by
  intro catalog
  have ordered : catalog.UserMapsFirst := userMapsFirst_of_load (.inl rfl) attempt loads
  rw [Catalog.cacheSearchPath_of_entry nonempty whole]
  constructor
  · intro mapped
    obtain ⟨record, serves⟩ := (Catalog.exists_serves_iff catalog .all directory).mpr mapped
    obtain rfl : record.key = directory := exact record serves.mem serves.eligible
    have path := Catalog.cachePath?_of_serves [] (by simpa using serves)
    rw [Catalog.cacheOf_of_serves ordered serves]
    simpa using path
  · intro unmapped
    constructor
    · rw [← Option.not_isSome_iff_eq_none, Catalog.cachePath?_isSome_iff]
      exact unmapped
    · have absent {owner : Owner} (lets : OwnerFilter.all.includes (.cacheMap owner)) :
          catalog.first? directory (.cacheMap owner) = none := by
        refine Catalog.first?_eq_none_of_absent fun map member same key => unmapped ?_
        refine ⟨map, member, ?_, by rw [key]⟩
        rw [same]
        exact lets
      simp [Catalog.cacheOf, @absent .user rfl, @absent .system rfl]

/-- A load where both files map one hierarchy. -/
def mappedTwice : Attempt :=
  .ofTexts "MANDB_MAP /usr/man /mine\n" (some "MANDB_MAP /usr/man /var/cache\n")

/-- A hierarchy that both files map, and one that neither does. -/
theorem cachePath?_eq_cacheSearchPath_of_two_maps :
    let catalog := (mappedTwice.run .empty).state.catalog
    (mappedTwice.run .empty).failure? = none ∧
      catalog.cachePath? "/usr/man".toList .all = some "/mine".toList ∧
      (catalog.cacheSearchPath "/usr/man".toList).value = "/mine".toList ∧
      catalog.cachePath? "/opt".toList .all = none ∧
      (catalog.cacheSearchPath "/opt".toList).value = "/opt".toList := by
  intro catalog
  have loads : (mappedTwice.run .empty).failure? = none := by decide
  have mine : (catalog.cacheSearchPath "/usr/man".toList).value = "/mine".toList := by decide
  obtain ⟨agrees, -⟩ := cachePath?_eq_cacheSearchPath mappedTwice loads "/usr/man".toList
    (by decide) (by decide) (by decide)
  obtain ⟨-, unmapped⟩ := cachePath?_eq_cacheSearchPath mappedTwice loads "/opt".toList
    (by decide) (by decide) (by decide)
  refine ⟨loads, ?_, mine, unmapped (by decide)⟩
  rw [← mine]
  exact agrees (by decide)

end ManualPages
