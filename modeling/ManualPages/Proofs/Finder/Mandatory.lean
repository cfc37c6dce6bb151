import ManualPages.Proofs.Finder.Programs

/-! # Two ways to the mandatory hierarchies

The mandatory hierarchies are put together twice: on their own, by appending one directory after the
other to a search path, and behind the hierarchies of a path for programs, in a list with a limit.
Where no directory has a colon in it both come to the directories found, each at its first
occurrence: `mandatoryPath_of_whole` says so of the search path, `hierarchyList_nil` of the list.

* `addMandatory_value`, `mandatoryPath_value` — the search path without its loops.
* `segments_mandatoryPath` — its segments that are among the directories found.
* `mandatoryPath_eq_pathOfPrograms` — where the two ways agree, and where the list is too long.
-/

namespace ManualPages

namespace Finder

open DirectoryList (directoriesOf nil_notMem_directoriesOf)
open SearchPath (append appendAll)

variable (tree : FileTree)

/-! ## The search path -/

theorem addMandatory_value (result candidate : Text) :
    (addMandatory tree result candidate).value =
      if tree.isDirectory candidate then append result candidate else result := by
  rw [addMandatory, FileTree.isDirectory]
  cases tree.probe candidate with
  | directory => rfl
  | notDirectory => rfl
  | unreadable cause => cases cause <;> rfl

theorem addMandatoryPattern_value (expander : Expander) (result pattern : Text) :
    (addMandatoryPattern tree expander result pattern).value =
      appendAll result ((expander.expand tree pattern).value.filter tree.isDirectory) := by
  simp only [addMandatoryPattern, Traced.value_bind, Traced.value_foldlM, addMandatory_value,
    appendAll, List.foldl_filter]

/-- The directories that mandatory hierarchies expand to. -/
def mandatoryDirectories (finder : Finder) : List Text :=
  directoriesOf tree finder.expander (mandatoryHierarchies finder.config.catalog)

variable (finder : Finder)

theorem mandatoryPath_value :
    (mandatoryPath tree finder).value =
      (SearchPath.nonEmpty? (appendAll [] (mandatoryDirectories tree finder))).getD fallback := by
  simp only [mandatoryPath, Traced.value_bind, Traced.value_pure, Traced.value_foldlM,
    addMandatoryPattern_value, mandatoryKeys_eq, mandatoryDirectories, directoriesOf, appendAll,
    List.foldl_flatMap]

variable {tree finder}

theorem join_mandatoryDirectories_ne_nil (found : mandatoryDirectories tree finder ≠ []) :
    SearchPath.join (mandatoryDirectories tree finder).eraseDups ≠ [] :=
  SearchPath.join_eraseDups_ne_nil (nil_notMem_directoriesOf _ _ _) found

section Whole

variable (whole : ∀ directory ∈ mandatoryDirectories tree finder, ':' ∉ directory)
include whole

theorem mandatoryPath_of_whole :
    (mandatoryPath tree finder).value =
      if mandatoryDirectories tree finder = [] then fallback
      else SearchPath.join (mandatoryDirectories tree finder).eraseDups := by
  have written : [] ∉ mandatoryDirectories tree finder := nil_notMem_directoriesOf _ _ _
  rw [mandatoryPath_value, SearchPath.nonEmpty?_appendAll_of_whole written whole]
  split <;> rfl

/-- The fallback is not among the directories found, because it is used where there are none. -/
theorem segments_mandatoryPath :
    (SearchPath.segments (mandatoryPath tree finder).value).filter
        (· ∈ mandatoryDirectories tree finder) =
      (mandatoryDirectories tree finder).eraseDups := by
  rw [mandatoryPath_of_whole whole]
  split
  next none => simp [none]
  next found =>
    have wholeListed : ∀ directory ∈ (mandatoryDirectories tree finder).eraseDups, ':' ∉ directory :=
      fun directory member => whole directory (List.mem_eraseDups.mp member)
    have nonempty : (mandatoryDirectories tree finder).eraseDups ≠ [] := by
      obtain ⟨first, others, same⟩ := List.exists_cons_of_ne_nil found
      simp [same, List.eraseDups_cons]
    rw [SearchPath.segments_join_of_whole nonempty wholeListed, List.filter_eq_self]
    intro directory member
    exact decide_eq_true (List.mem_eraseDups.mp member)

end Whole

/-! ## The list -/

theorem hierarchyList_nil (noOverride : finder.options.overrideDirectory = none) :
    hierarchyList tree finder.expander finder.options.overrideDirectory finder.config.catalog [] true =
      (mandatoryDirectories tree finder).eraseDups := by
  have alone : (mandatoryHierarchies finder.config.catalog).flatMap (patternsOf none) =
      mandatoryHierarchies finder.config.catalog := List.flatMap_singleton' _
  rw [noOverride]
  simp [hierarchyList, reached, alone, mandatoryDirectories]

/-- Without an override, and where no directory that a mandatory hierarchy expands to has a colon in
    it, the hierarchies of the empty path for programs are the mandatory search path; there are none
    of them where that is the fallback.  They are too many exactly if the mandatory search path has
    more segments among the directories found than the limit lets in. -/
theorem mandatoryPath_eq_pathOfPrograms (tree : FileTree) (finder : Finder)
    (noOverride : finder.options.overrideDirectory = none)
    (whole : ∀ directory ∈ mandatoryDirectories tree finder, ':' ∉ directory) :
    let found := mandatoryDirectories tree finder
    let mandatory := (mandatoryPath tree finder).value
    (∀ path, (pathOfPrograms tree finder [] true).value = .ok path →
      (path ≠ [] → mandatory = path) ∧ (path = [] → mandatory = "/usr/man".toList)) ∧
    ((∃ failure, (pathOfPrograms tree finder [] true).value = .error failure) ↔
      finder.options.limit < ((SearchPath.segments mandatory).filter (· ∈ found)).length) := by
  intro found mandatory
  have answer : (pathOfPrograms tree finder [] true).value =
      if found.eraseDups.length ≤ finder.options.limit then .ok (SearchPath.join found.eraseDups)
      else .error (.tooManyDirectories finder.options.limit) := by
    have value := pathOfPrograms_value tree finder [] true
    rwa [hierarchyList_nil noOverride] at value
  have segments : (SearchPath.segments mandatory).filter (· ∈ found) = found.eraseDups :=
    segments_mandatoryPath whole
  have value : mandatory = if found = [] then fallback else SearchPath.join found.eraseDups :=
    mandatoryPath_of_whole whole
  constructor
  · intro path listed
    rw [answer] at listed
    split at listed
    next =>
      obtain rfl : SearchPath.join found.eraseDups = path := Except.ok.inj listed
      -- no directory found is the empty text, so an empty path means that none was found
      refine ⟨fun nonempty => ?_, fun empty => ?_⟩
      · refine value.trans (if_neg fun none => nonempty ?_)
        rw [none]
        rfl
      · refine value.trans (if_pos (Decidable.byContradiction fun some => ?_))
        exact join_mandatoryDirectories_ne_nil some empty
    next => contradiction
  · rw [answer, segments]
    split
    next room => exact iff_of_false (by simp) (Nat.not_lt.mpr room)
    next full => exact iff_of_true ⟨_, rfl⟩ (Nat.not_le.mp full)

/-- Two directories in one place. -/
def sideBySide : FileTree where
  root := .directory [(Octets.encode "opt".toList, .directory [
    (Octets.encode "man".toList, .directory []), (Octets.encode "share".toList, .directory [])])]

/-- Mandatory hierarchies of which the first stands for two and the last is one of these. -/
def overlapping (limit : Nat) : Finder where
  config := {
    catalog := ⟨["/opt/*", "/missing", "/opt/man"].map fun key => ⟨key.toList, [], .mandatory⟩⟩
    loaded := true }
  options := { limit }
  expander := .table [("/opt/*".toList, ["/opt/man".toList, "/opt/share".toList])]

/-- A list that has just room for both directories, and one that has not. -/
theorem mandatoryPath_eq_pathOfPrograms_of_overlap :
    (∀ directory ∈ mandatoryDirectories sideBySide (overlapping 2), ':' ∉ directory) ∧
      (pathOfPrograms sideBySide (overlapping 2) [] true).value =
        .ok "/opt/man:/opt/share".toList ∧
      (mandatoryPath sideBySide (overlapping 2)).value = "/opt/man:/opt/share".toList ∧
      ∃ failure, (pathOfPrograms sideBySide (overlapping 1) [] true).value = .error failure := by
  have whole : ∀ directory ∈ mandatoryDirectories sideBySide (overlapping 2), ':' ∉ directory := by
    decide
  have listed : (pathOfPrograms sideBySide (overlapping 2) [] true).value =
      .ok "/opt/man:/opt/share".toList := by rfl
  obtain ⟨agrees, -⟩ := mandatoryPath_eq_pathOfPrograms sideBySide (overlapping 2) rfl whole
  obtain ⟨-, full⟩ := mandatoryPath_eq_pathOfPrograms sideBySide (overlapping 1) rfl whole
  exact ⟨whole, listed, (agrees _ listed).1 (by simp), full.mpr (by decide)⟩

end Finder

end ManualPages
