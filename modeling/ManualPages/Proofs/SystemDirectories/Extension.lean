import ManualPages.Proofs.SearchPath.Appending
import ManualPages.SystemDirectories

/-! # The search path of alternate systems

The search path for a list of systems is what the systems contribute, one after the other: the
native one the whole path, any other one its directories in the elements of the path.  What a system
contributes does not depend on those before it, so one that comes again contributes nothing new.

* `directoriesFor` — the directories of systems in the elements of a path.
* `contributions`, `extend_value` — the search path as one sequence of candidates.
* `extend_of_foreign`, `mem_entries_extend` — the search path without, and with the native system.
* `mem_entries_of_foreign` — the elements of what one of the other systems contributes.
* `extend_of_fewer`, `names_join` — systems that are listed again, and a list without them.
* `extend_outcome` — what the search path is, and what it is made of.
-/

namespace ManualPages.SystemDirectories

open SearchPath (append appendAll segments entries)

variable {tree : FileTree} {path : Text}

/-! ## Contributions -/

/-- The directories of systems in the elements of a path: one system after the other, and of each
    one element after the other. -/
def directoriesFor (tree : FileTree) (path : Text) (systems : List Text) : List Text :=
  systems.flatMap fun system =>
    ((segments path).map fun element => directoryOf element system).filter tree.isDirectory

/-- What a system contributes to the search path. -/
def contributions (tree : FileTree) (path system : Text) : List Text :=
  if system = native then [path] else directoriesFor tree path [system]

theorem addElement_value (tree : FileTree) (system result element : Text) :
    (addElement tree system result element).value =
      if tree.isDirectory (directoryOf element system) then
        append result (directoryOf element system)
      else result := by
  rw [addElement, FileTree.isDirectory]
  cases tree.probe (directoryOf element system) with
  | directory => rfl
  | notDirectory => rfl
  | unreadable cause => rfl

theorem addSystem_value (tree : FileTree) (path result system : Text) :
    (addSystem tree path result system).value =
      appendAll result (contributions tree path system) := by
  rw [addSystem, contributions]
  split
  · rfl
  · simp only [Traced.value_foldlM, addElement_value, directoriesFor, List.flatMap_singleton,
      appendAll, List.foldl_filter, List.foldl_map]

/-- The search path for systems is their contributions, or the path itself where they are none. -/
theorem extend_value (tree : FileTree) (systems path : Text) :
    (extend tree (some systems) path).value =
      (SearchPath.nonEmpty?
        (appendAll [] ((names systems).flatMap (contributions tree path)))).getD path := by
  have whole : ((names systems).foldlM (addSystem tree path) []).value =
      appendAll [] ((names systems).flatMap (contributions tree path)) := by
    simp only [Traced.value_foldlM, addSystem_value, appendAll, List.foldl_flatMap]
  rw [← whole, SearchPath.nonEmpty?]
  by_cases empty : systems = []
  · subst empty
    rfl
  · have given : (some systems).filter (! ·.isEmpty) = some systems := by
      simpa [Option.filter_eq_some_iff] using empty
    rw [extend, given]
    simp only [Traced.value_bind]
    split <;> rfl

theorem mem_directoriesFor {systems : List Text} {directory : Text} :
    directory ∈ directoriesFor tree path systems ↔
      ∃ system ∈ systems, ∃ element ∈ segments path, directory = directoryOf element system ∧
        tree.isDirectory directory := by
  simp only [directoriesFor, List.mem_flatMap, List.mem_filter, List.mem_map]
  constructor
  · rintro ⟨system, listed, ⟨element, cut, rfl⟩, found⟩
    exact ⟨system, listed, element, cut, rfl, found⟩
  · rintro ⟨system, listed, element, cut, rfl, found⟩
    exact ⟨system, listed, ⟨element, cut, rfl⟩, found⟩

theorem flatMap_contributions {systems : List Text} (foreign : native ∉ systems) :
    systems.flatMap (contributions tree path) = directoriesFor tree path systems := by
  refine List.flatMap_congr fun system member => ?_
  have other : system ≠ native := fun same => foreign (same ▸ member)
  rw [contributions, if_neg other, directoriesFor, List.flatMap_singleton]

/-! ## Systems and their directories -/

theorem separates_eq_false_of_mem_names {systems system : Text} (member : system ∈ names systems) :
    ∀ c ∈ system, (c = ',' || c = ':') = false := fun c inside =>
  (of_mem_splitOnP (List.mem_of_mem_filter member) c inside).2

theorem colon_notMem_of_mem_names {systems system : Text} (member : system ∈ names systems) :
    ':' ∉ system := by
  intro inside
  simpa using separates_eq_false_of_mem_names member ':' inside

theorem colon_notMem_directoryOf {systems element system : Text} (cut : element ∈ segments path)
    (member : system ∈ names systems) : ':' ∉ directoryOf element system := by
  simp [directoryOf, SearchPath.colon_notMem_of_mem_segments cut, colon_notMem_of_mem_names member]

theorem names_append_colon (before behind : Text) :
    names (before ++ ':' :: behind) = names before ++ names behind := by
  rw [names, List.splitOnP_append_cons _ _ rfl, List.filter_append]
  rfl

/-- A list that is put together from systems has these systems. -/
theorem names_join {systems : List Text} (each : ∀ system ∈ systems, names system = [system]) :
    names (SearchPath.join systems) = systems := by
  induction systems with
  | nil => rfl
  | cons first rest ih =>
    obtain ⟨alone, others⟩ := List.forall_mem_cons.mp each
    cases rest with
    | nil => rw [SearchPath.join_singleton, alone]
    | cons next rest =>
      rw [SearchPath.join_cons first (List.cons_ne_nil next rest), names_append_colon, alone,
        ih others]
      rfl

theorem names_of_mem_names {systems system : Text} (member : system ∈ names systems) :
    names system = [system] := by
  rw [names, List.splitOnP_eq_singleton (separates_eq_false_of_mem_names member)]
  simpa using (List.mem_filter.mp member).2

/-! ## The search path -/

theorem extend_ne_nil (systems : Text) (nonempty : path ≠ []) :
    (extend tree (some systems) path).value ≠ [] := by
  rw [extend_value, SearchPath.nonEmpty?]
  split
  · exact nonempty
  next written => simpa using written

theorem extend_of_foreign {systems : Text} (foreign : native ∉ names systems) :
    (extend tree (some systems) path).value =
      if directoriesFor tree path (names systems) = [] then path
      else SearchPath.join (directoriesFor tree path (names systems)).eraseDups := by
  have written : [] ∉ directoriesFor tree path (names systems) := by
    intro found
    obtain ⟨system, -, element, -, same, -⟩ := mem_directoriesFor.mp found
    simp [directoryOf] at same
  have whole : ∀ directory ∈ directoriesFor tree path (names systems), ':' ∉ directory := by
    intro directory found
    obtain ⟨system, listed, element, cut, rfl, -⟩ := mem_directoriesFor.mp found
    exact colon_notMem_directoryOf cut listed
  rw [extend_value, flatMap_contributions foreign,
    SearchPath.nonEmpty?_appendAll_of_whole written whole]
  split <;> rfl

/-- What the contributions of systems are put together to has the elements of each of them. -/
theorem mem_entries_contributions {systems entry : Text} :
    entry ∈ entries (appendAll [] ((names systems).flatMap (contributions tree path))) ↔
      ∃ system ∈ names systems, ∃ candidate ∈ contributions tree path system,
        entry ∈ entries candidate := by
  rw [SearchPath.mem_entries_appendAll]
  constructor
  · rintro ⟨candidate, offers, inside⟩
    obtain ⟨system, listed, offers⟩ := List.mem_flatMap.mp offers
    exact ⟨system, listed, candidate, offers, inside⟩
  · rintro ⟨system, listed, candidate, offers, inside⟩
    exact ⟨candidate, List.mem_flatMap.mpr ⟨system, listed, offers⟩, inside⟩

/-- Where the contributions come to nothing the path stands in for them. -/
theorem mem_entries_extend_iff {systems entry : Text} :
    entry ∈ entries (extend tree (some systems) path).value ↔
      (∃ system ∈ names systems, ∃ candidate ∈ contributions tree path system,
        entry ∈ entries candidate) ∨
      appendAll [] ((names systems).flatMap (contributions tree path)) = [] ∧
        entry ∈ entries path := by
  rw [← mem_entries_contributions, extend_value, SearchPath.nonEmpty?]
  split
  next nothing => simp [List.isEmpty_iff.mp nothing]
  next written => simp [mt List.isEmpty_iff.mpr written]

theorem mem_entries_extend {systems entry : Text} (offered : native ∈ names systems) :
    entry ∈ entries (extend tree (some systems) path).value ↔
      ∃ system ∈ names systems, ∃ candidate ∈ contributions tree path system,
        entry ∈ entries candidate := by
  -- the path itself is among what is appended
  have own : path ∈ contributions tree path native := List.mem_singleton.mpr rfl
  rw [mem_entries_extend_iff]
  exact or_iff_left_of_imp fun ⟨_, member⟩ => ⟨native, offered, path, own, member⟩

/-- The elements of what a system other than the native one contributes are its directories. -/
theorem mem_entries_of_foreign {systems system entry : Text} (member : system ∈ names systems)
    (foreign : system ≠ native) :
    (∃ candidate ∈ contributions tree path system, entry ∈ entries candidate) ↔
      ∃ element ∈ segments path, entry = directoryOf element system ∧ tree.isDirectory entry := by
  have alone {element : Text} (cut : element ∈ segments path) :
      entries (directoryOf element system) = [directoryOf element system] :=
    SearchPath.entries_of_whole (by simp [directoryOf]) (colon_notMem_directoryOf cut member)
  simp only [contributions, if_neg foreign, mem_directoriesFor, List.mem_singleton]
  constructor
  · rintro ⟨_, ⟨_, rfl, element, cut, rfl, found⟩, inside⟩
    rw [alone cut, List.mem_singleton] at inside
    exact ⟨element, cut, inside, inside ▸ found⟩
  · rintro ⟨element, cut, rfl, found⟩
    refine ⟨_, ⟨system, rfl, element, cut, rfl, found⟩, ?_⟩
    rw [alone cut]
    exact List.mem_singleton.mpr rfl

theorem extend_of_fewer {systems fewer : Text} (same : names fewer = (names systems).eraseDups) :
    (extend tree (some fewer) path).value = (extend tree (some systems) path).value := by
  -- a candidate counts once, and a system that comes again has only candidates that came before
  rw [extend_value, extend_value, same, ← SearchPath.appendAll_eraseDups, eraseDups_flatMap,
    SearchPath.appendAll_eraseDups]

/-- The search path for systems is never empty where the path is not.  Without the native system it
    is the directories of the systems in the elements of the path, each at its first occurrence, or
    the path itself where there is none; with the native system it has every element of the path and
    besides them only such directories.  A system that is listed again counts only once. -/
theorem extend_outcome (tree : FileTree) (systems path : Text) :
    let result := (extend tree (some systems) path).value
    let found := directoriesFor tree path (names systems)
    (path ≠ [] → result ≠ []) ∧
    (native ∉ names systems →
      (found = [] → result = path) ∧
      (found ≠ [] → result = SearchPath.join found.eraseDups)) ∧
    (native ∈ names systems →
      (∀ element ∈ entries path, element ∈ entries result) ∧
      ∀ entry ∈ entries result, entry ∉ entries path →
        ∃ element ∈ segments path, ∃ system ∈ names systems, system ≠ native ∧
          entry = directoryOf element system ∧ tree.isDirectory entry) ∧
    (∀ fewer, names fewer = (names systems).eraseDups →
      (extend tree (some fewer) path).value = result) ∧
    names (SearchPath.join (names systems).eraseDups) = (names systems).eraseDups := by
  intro result found
  refine ⟨extend_ne_nil systems, ?_, ?_, fun _ => extend_of_fewer, ?_⟩
  · intro foreign
    have answer : result = if found = [] then path else SearchPath.join found.eraseDups :=
      extend_of_foreign foreign
    exact ⟨fun none => answer.trans (if_pos none), fun some => answer.trans (if_neg some)⟩
  · intro offered
    refine ⟨fun element member => ?_, fun entry member added => ?_⟩
    · exact (mem_entries_extend offered).mpr
        ⟨native, offered, path, List.mem_singleton.mpr rfl, member⟩
    · obtain ⟨system, listed, candidate, offers, inside⟩ := (mem_entries_extend offered).mp member
      by_cases same : system = native
      · subst same
        obtain rfl : candidate = path := List.mem_singleton.mp offers
        contradiction
      · obtain ⟨element, cut, here, found⟩ :=
          (mem_entries_of_foreign listed same).mp ⟨candidate, offers, inside⟩
        exact ⟨element, cut, system, listed, same, here, found⟩
  · refine names_join fun system member => ?_
    exact names_of_mem_names (List.mem_eraseDups.mp member)

end ManualPages.SystemDirectories
