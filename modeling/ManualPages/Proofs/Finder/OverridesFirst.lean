import ManualPages.Proofs.Finder.Resolution

/-! # Overrides before their hierarchies

A hierarchy is added right behind the override inside it, but the list takes either of them only if
it is new.  A hierarchy that is itself the override inside another one may be in the list already,
and then its own override comes behind it.  Which hierarchies these are does not depend on the tree:
`pair_sublist_patterns_iff` goes through the hierarchies one by one, and directories are told from
other patterns only afterwards.

* `allContributed` — the hierarchies that a path for programs contributes.
* `ListedAsOverride` — the hierarchies that come up as overrides first.
* `pair_sublist_patterns_iff` — the order of a hierarchy and its override among all patterns.
* `override_precedes_iff` — when the override is listed before its hierarchy.
* `override_behind_hierarchy` — a configuration where it is not.
-/

namespace ManualPages

namespace Finder

/-- The hierarchies that a path for programs contributes, in order: those of its directories, and
    the mandatory ones after them if they are wanted. -/
def allContributed (tree : FileTree) (catalog : Catalog) (path : Text) (includeMandatory : Bool) :
    List Text :=
  let programs := (SearchPath.segments path).filter fun element => element ≠ [] ∧ element ≠ ['.']
  programs.flatMap (contributed tree catalog) ++
    if includeMandatory then mandatoryHierarchies catalog else []

/-- The directory is the override inside a hierarchy, before which neither the directory nor the
    override inside it is contributed. -/
def ListedAsOverride (override : Text) (hierarchies : List Text) (directory : Text) : Prop :=
  ∃ before outer behind, hierarchies = before ++ outer :: behind ∧
    outer ++ '/' :: override = directory ∧
    directory ∉ before ∧ directory ++ '/' :: override ∉ before

section Patterns

variable {override outer directory : Text} {hierarchies : List Text}

theorem listedAsOverride_cons_iff :
    ListedAsOverride override (outer :: hierarchies) directory ↔
      outer ++ '/' :: override = directory ∨
        outer ≠ directory ∧ outer ≠ directory ++ '/' :: override ∧
          ListedAsOverride override hierarchies directory := by
  constructor
  · rintro ⟨before, inner, behind, split, same, notYet, notInside⟩
    cases before with
    | nil =>
      obtain ⟨rfl, -⟩ := List.cons.inj split
      exact .inl same
    | cons first before =>
      obtain ⟨rfl, rest⟩ := List.cons.inj split
      simp only [List.mem_cons, not_or] at notYet notInside
      exact .inr ⟨Ne.symm notYet.1, Ne.symm notInside.1,
        before, inner, behind, rest, same, notYet.2, notInside.2⟩
  · rintro (same | ⟨other, otherInside, before, inner, behind, rfl, same, notYet, notInside⟩)
    · exact ⟨[], outer, hierarchies, rfl, same, List.not_mem_nil, List.not_mem_nil⟩
    · refine ⟨outer :: before, inner, behind, rfl, same, ?_, ?_⟩
      · simp [Ne.symm other, notYet]
      · simp [Ne.symm otherInside, notInside]

/-- Among the patterns of hierarchies the override inside a hierarchy comes before it, unless the
    hierarchy comes up as an override first. -/
theorem pair_sublist_patterns_iff (member : directory ∈ hierarchies) :
    List.Sublist [directory ++ '/' :: override, directory]
        (hierarchies.flatMap (patternsOf (some override))).eraseDups ↔
      ¬ ListedAsOverride override hierarchies directory := by
  induction hierarchies with
  | nil => contradiction
  | cons outer rest ih =>
    rw [List.flatMap_cons, patternsOf, List.cons_append, List.cons_append, List.nil_append,
      pair_sublist_eraseDups_cons, pair_sublist_eraseDups_cons, listedAsOverride_cons_iff]
    by_cases asOverride : outer ++ '/' :: override = directory
    · -- the hierarchy is in the list now, and its override is not
      simp [asOverride]
    by_cases itself : outer = directory
    · subst itself
      simp
    have later : directory ∈ rest := by simpa [Ne.symm itself] using member
    by_cases isInside : outer = directory ++ '/' :: override
    · -- the override is contributed as a hierarchy of its own
      have contributed : directory ∈ rest.flatMap (patternsOf (some override)) :=
        List.mem_flatMap.mpr ⟨directory, later, by simp [patternsOf]⟩
      subst isInside
      simp [contributed]
    · have ahead : outer ++ '/' :: override ≠ directory ++ '/' :: override := by simpa using itself
      simp [asOverride, itself, isInside, ih later]

theorem mem_patterns (override : Text) (member : directory ∈ hierarchies) :
    directory ++ '/' :: override ∈ hierarchies.flatMap (patternsOf (some override)) ∧
      directory ∈ hierarchies.flatMap (patternsOf (some override)) := by
  constructor <;> exact List.mem_flatMap.mpr ⟨directory, member, by simp [patternsOf]⟩

end Patterns

/-- Where patterns stand for themselves, an answer is a list of directories, each once.  It has every
    contributed hierarchy that is a directory with an override inside it, and that override too.  The
    override comes first, except exactly where the hierarchy itself is listed as an override before. -/
theorem override_precedes_iff (tree : FileTree) (finder : Finder) (path : Text)
    (includeMandatory : Bool) (override : Text)
    (chosen : finder.options.overrideDirectory = some override)
    (self : ∀ pattern, (finder.expander.expand tree pattern).value = [pattern]) (answer : Text)
    (answered : (pathOfPrograms tree finder path includeMandatory).value = .ok answer) :
    let listed := hierarchyList tree finder.expander finder.options.overrideDirectory
      finder.config.catalog path includeMandatory
    let hierarchies := allContributed tree finder.config.catalog path includeMandatory
    answer = SearchPath.join listed ∧ listed.Nodup ∧
      ((∀ directory ∈ listed, ':' ∉ directory) → SearchPath.entries answer = listed) ∧
      ∀ directory ∈ hierarchies, tree.isDirectory directory →
        tree.isDirectory (directory ++ '/' :: override) →
          directory ∈ listed ∧ directory ++ '/' :: override ∈ listed ∧
          (List.Sublist [directory ++ '/' :: override, directory] listed ↔
            ¬ ListedAsOverride override hierarchies directory) := by
  intro listed hierarchies
  have whole : answer = SearchPath.join listed := by
    rw [pathOfPrograms_value] at answered
    change (if listed.length ≤ finder.options.limit then _ else _) = _ at answered
    split at answered
    · exact (Except.ok.inj answered).symm
    · contradiction
  have filtered : listed =
      (hierarchies.flatMap (patternsOf (some override))).eraseDups.filter tree.isDirectory := by
    rw [← eraseDups_filter, ← DirectoryList.directoriesOf_eq_filter fun pattern _ => self pattern,
      ← chosen]
    rfl
  refine ⟨whole, nodup_eraseDups _, fun noColon => ?_, fun directory member found insideFound => ?_⟩
  · rw [whole, SearchPath.entries_join_of_whole nil_notMem_hierarchyList noColon]
  · obtain ⟨inside, itself⟩ := mem_patterns override member
    rw [filtered, List.mem_filter, List.mem_filter, List.mem_eraseDups, List.mem_eraseDups,
      sublist_filter_iff_forall, pair_sublist_patterns_iff member]
    simp [inside, itself, found, insideFound]

/-- A hierarchy with directories of the name `local` nested in it, and a system-wide file with that
    hierarchy and the outer one of them. -/
def nestedOverrides : FileTree where
  root := .directory [
    (Octets.encode "man".toList, .directory [
      (Octets.encode "local".toList, .directory [
        (Octets.encode "local".toList, .directory [])])]),
    (Octets.encode "manpath.config".toList,
      .file (Octets.encode "MANPATH_MAP /bin /man\nMANPATH_MAP /sbin /man/local\n".toList))]

/-- Overrides have the name `local`, and patterns stand for themselves. -/
def localFirst : Finder where
  options := {
    overrideDirectory := some "local".toList
    load := { systemFile := Octets.encode "/manpath.config".toList } }
  expander := .table []

/-- The second hierarchy comes up as the override of the first one, and its own override is listed
    last. -/
theorem override_behind_hierarchy :
    let loading := (localFirst.load nestedOverrides).value
    let path := "/bin:/sbin".toList
    let hierarchy := "/man/local".toList
    let inside := "/man/local/local".toList
    ∃ answer, loading.failure? = none ∧
      (pathOfPrograms nestedOverrides loading.state path false).value = .ok answer ∧
      hierarchy ∈ allContributed nestedOverrides loading.state.config.catalog path false ∧
      nestedOverrides.isDirectory inside ∧
      SearchPath.entries answer = [hierarchy, "/man".toList, inside] ∧
      ¬ List.Sublist [inside, hierarchy] (SearchPath.entries answer) := by
  intro loading path hierarchy inside
  exact ⟨"/man/local:/man:/man/local/local".toList, by decide, by decide, by decide, by decide,
    by decide, by decide⟩

/-- The same hierarchies, the inner one first, which is where its override is listed too. -/
theorem override_precedes_of_inner_first :
    let finder := (localFirst.load nestedOverrides).value.state
    let path := "/sbin:/bin".toList
    let hierarchy := "/man/local".toList
    let listed := [hierarchy ++ "/local".toList, hierarchy, "/man".toList]
    (pathOfPrograms nestedOverrides finder path false).value = .ok (SearchPath.join listed) ∧
      List.Sublist [hierarchy ++ "/local".toList, hierarchy] listed := by
  intro finder path hierarchy listed
  have answered : (pathOfPrograms nestedOverrides finder path false).value =
      .ok (SearchPath.join listed) := by decide
  have chosen : finder.options.overrideDirectory = some "local".toList := by decide
  obtain ⟨-, -, -, order⟩ := override_precedes_iff nestedOverrides finder path false
    "local".toList chosen (fun _ => rfl) _ answered
  have contributed : allContributed nestedOverrides finder.config.catalog path false =
      [hierarchy, "/man".toList] := by decide
  have listedOnce : hierarchyList nestedOverrides finder.expander finder.options.overrideDirectory
      finder.config.catalog path false = listed := by decide
  rw [contributed, listedOnce] at order
  have inOrder : ¬ ListedAsOverride "local".toList [hierarchy, "/man".toList] hierarchy := by
    rw [listedAsOverride_cons_iff]
    rintro (same | ⟨other, -⟩)
    · exact absurd same (by decide)
    · exact other rfl
  obtain ⟨-, -, precedes⟩ := order hierarchy List.mem_cons_self (by decide) (by decide)
  exact ⟨answered, precedes.mpr inOrder⟩

end Finder

end ManualPages
