import ManualPages.Finder.Basic
import ManualPages.Proofs.DirectoryList.NewEntries
import ManualPages.Proofs.SearchPath.Appending

/-! # The hierarchies of a search path for programs

Mapped, guessed and mandatory hierarchies, their overrides and what they expand to all end up in
one list that grows directory by directory.  The list is told here without its loops: it is a
list of directories that does not depend on the limit, each at its first occurrence, and the
limit lets in all of it or nothing.

* `guesses`, `contributed`, `hierarchyList` — the list, from the configuration and the path.
* `addPatterns_value`, `addPrograms_value` — each loop goes on with the list where it stands.
* `pathOfPrograms_outcome` — the answer for every limit, and how it depends on the path.
-/

namespace ManualPages

/-! ## The directory above -/

namespace Text

theorem beforeLast?_of_notMem {sep : Char} {t : Text} (absent : sep ∉ t) :
    beforeLast? sep t = none := by
  induction t with
  | nil => rfl
  | cons c rest ih =>
    simp only [List.mem_cons, not_or] at absent
    simp [beforeLast?, ih absent.2, Ne.symm absent.1]

theorem beforeLast?_append_cons {sep : Char} (before : Text) {behind : Text}
    (absent : sep ∉ behind) : beforeLast? sep (before ++ sep :: behind) = some before := by
  induction before with
  | nil => simp [beforeLast?, beforeLast?_of_notMem absent]
  | cons c rest ih => simp [beforeLast?, ih]

end Text

namespace Finder

/-- The path without its last component, where it has more than one. -/
def above? (path : Text) : Option Text :=
  if '/' ∈ path then some (['/'].intercalate (path.splitOn '/').dropLast) else none

theorem beforeLast?_eq_above? (path : Text) : path.beforeLast? '/' = above? path := by
  by_cases nested : '/' ∈ path
  · -- cut at the last slash, which is the first one from behind
    obtain ⟨behind, before, same, absent⟩ := List.eq_append_cons_of_mem (List.mem_reverse.mpr nested)
    obtain rfl : path = before.reverse ++ '/' :: behind.reverse := by
      rw [← path.reverse_reverse, same]
      simp
    have last : '/' ∉ behind.reverse := by simpa using absent
    rw [Text.beforeLast?_append_cons before.reverse last, above?, if_pos nested,
      List.splitOn_append_cons_self, List.splitOn_eq_singleton last, List.dropLast_concat,
      List.intercalate_splitOn]
  · rw [Text.beforeLast?_of_notMem nested, above?, if_neg nested]

/-! ## The list -/

/-- Where the hierarchy of a directory of programs may lie. -/
def guesses (programs : Text) : List Text :=
  match above? programs with
  | some parent =>
    [parent ++ "/man".toList, programs ++ "/man".toList,
      parent ++ "/share/man".toList, programs ++ "/share/man".toList]
  | none => [programs ++ "/man".toList, programs ++ "/share/man".toList]

/-- The hierarchies that a directory of programs is mapped to, else the first guess that is a
    directory. -/
def contributed (tree : FileTree) (catalog : Catalog) (programs : Text) : List Text :=
  let mapped := catalog.records.filter fun record =>
    record.subject = .programMap ∧ record.key = programs
  if mapped = [] then ((guesses programs).find? tree.isDirectory).toList
  else mapped.map (·.content)

def mandatoryHierarchies (catalog : Catalog) : List Text :=
  (catalog.records.filter (·.subject = .mandatory)).map (·.key)

/-- A hierarchy after the override inside it, if there is one. -/
def patternsOf (override? : Option Text) (hierarchy : Text) : List Text :=
  match override? with
  | some override => [hierarchy ++ '/' :: override, hierarchy]
  | none => [hierarchy]

/-- The directories that hierarchies lead to, with their overrides and expanded. -/
def reached (tree : FileTree) (expander : Expander) (override? : Option Text)
    (hierarchies : List Text) : List Text :=
  DirectoryList.directoriesOf tree expander (hierarchies.flatMap (patternsOf override?))

/-- The directories that a search path for programs leads to, in order, each once. -/
def hierarchyList (tree : FileTree) (expander : Expander) (override? : Option Text)
    (catalog : Catalog) (path : Text) (includeMandatory : Bool) : List Text :=
  let programs := (SearchPath.segments path).filter fun element => element ≠ [] ∧ element ≠ ['.']
  let hierarchies := programs.flatMap (contributed tree catalog) ++
    if includeMandatory then mandatoryHierarchies catalog else []
  (reached tree expander override? hierarchies).eraseDups

section Parts

variable (tree : FileTree)

theorem hierarchyCandidates_eq (programs : Text) :
    hierarchyCandidates programs = guesses programs := by
  rw [hierarchyCandidates, beforeLast?_eq_above?, guesses]
  cases above? programs <;> rfl

theorem hierarchiesOf_eq (config : Configuration) :
    hierarchiesOf tree config = contributed tree config.catalog := by
  funext programs
  have mapped : config.catalog.recordsOf programs .programMap =
      config.catalog.records.filter fun record =>
        record.subject = .programMap ∧ record.key = programs := by
    simp [Catalog.recordsOf, Record.hasKey]
  rw [hierarchiesOf, mapped, contributed, hierarchyBeside?, hierarchyCandidates_eq]
  cases config.catalog.records.filter fun record =>
    record.subject = .programMap ∧ record.key = programs <;> rfl

theorem mandatoryKeys_eq (config : Configuration) :
    mandatoryKeys config = mandatoryHierarchies config.catalog := rfl

theorem programDirectories_eq (path : Text) :
    programDirectories path =
      (SearchPath.segments path).filter fun element => element ≠ [] ∧ element ≠ ['.'] := by
  rw [programDirectories, SearchPath.entries, List.filter_filter]
  refine List.filter_congr fun element _ => ?_
  cases element <;> simp

@[simp] theorem reached_nil (expander : Expander) (override? : Option Text) :
    reached tree expander override? [] = [] := rfl

theorem reached_append (expander : Expander) (override? : Option Text) (first second : List Text) :
    reached tree expander override? (first ++ second) =
      reached tree expander override? first ++ reached tree expander override? second := by
  rw [reached, List.flatMap_append, DirectoryList.directoriesOf_append]
  rfl

theorem reached_flatMap (expander : Expander) (override? : Option Text)
    (contribute : Text → List Text) (programs : List Text) :
    reached tree expander override? (programs.flatMap contribute) =
      programs.flatMap fun element => reached tree expander override? (contribute element) := by
  simp only [reached, DirectoryList.directoriesOf, List.flatMap_assoc]

end Parts

/-! ## The loops -/

section Loops

open DirectoryList (directoriesOf distinct)

variable (tree : FileTree) {limit : Nat} {directories : List Text} {list : DirectoryList}

theorem addPatterns_cons (expander : Expander) (list : DirectoryList) (pattern : Text)
    (rest : List Text) :
    (addPatterns tree expander list (pattern :: rest)).value =
      match (list.addNew tree expander pattern).value.result with
      | .ok longer => (addPatterns tree expander longer rest).value
      | .error failure => .error failure := by
  simp only [addPatterns, Traced.value_bind, Outcome.result]
  cases (list.addNew tree expander pattern).value.failure? <;> rfl

theorem addPatterns_value (expander : Expander) (patterns : List Text)
    (listed : distinct limit directories = .ok list) :
    (addPatterns tree expander list patterns).value =
      distinct limit (directories ++ directoriesOf tree expander patterns) := by
  induction patterns generalizing directories list with
  | nil => simp [addPatterns, directoriesOf, listed]
  | cons pattern rest ih =>
    have step : (list.addNew tree expander pattern).value.result =
        distinct limit (directories ++
          (expander.expand tree pattern).value.filter tree.isDirectory) :=
      DirectoryList.addNewCandidates_result tree _ listed
    rw [addPatterns_cons, step, directoriesOf, List.flatMap_cons, ← List.append_assoc]
    cases longer : distinct limit (directories ++
        (expander.expand tree pattern).value.filter tree.isDirectory) with
    | ok next => exact ih longer
    | error failure => exact (DirectoryList.distinct_append_of_error longer _).symm

theorem addHierarchies_value (finder : Finder) (hierarchies : List Text)
    (listed : distinct limit directories = .ok list) :
    (addHierarchies tree finder list hierarchies).value =
      distinct limit (directories ++
        reached tree finder.expander finder.options.overrideDirectory hierarchies) :=
  addPatterns_value tree finder.expander _ listed

theorem addPrograms_value (finder : Finder) (programs : List Text)
    (listed : distinct limit directories = .ok list) :
    (addPrograms tree finder list programs).value =
      distinct limit (directories ++ reached tree finder.expander finder.options.overrideDirectory
        (programs.flatMap (hierarchiesOf tree finder.config))) := by
  -- as for patterns: what is listed so far is `distinct` of what was reached so far
  induction programs generalizing directories list with
  | nil => simp [addPrograms, reached, directoriesOf, listed]
  | cons first rest ih =>
    have step := addHierarchies_value tree finder (hierarchiesOf tree finder.config first) listed
    rw [List.flatMap_cons, reached_append, ← List.append_assoc]
    simp only [addPrograms, Traced.value_bind, step]
    cases longer : distinct limit (directories ++ reached tree finder.expander
        finder.options.overrideDirectory (hierarchiesOf tree finder.config first)) with
    | ok next => exact ih longer
    | error failure => exact (DirectoryList.distinct_append_of_error longer _).symm

theorem pathOfPrograms_value (finder : Finder) (path : Text) (includeMandatory : Bool) :
    (pathOfPrograms tree finder path includeMandatory).value =
      let listed := hierarchyList tree finder.expander finder.options.overrideDirectory
        finder.config.catalog path includeMandatory
      if listed.length ≤ finder.options.limit then .ok (SearchPath.join listed)
      else .error (.tooManyDirectories finder.options.limit) := by
  have empty : distinct finder.options.limit [] =
      .ok (DirectoryList.withLimit finder.options.limit) := rfl
  have programs := addPrograms_value tree finder (programDirectories path) empty
  rw [List.nil_append, hierarchiesOf_eq, programDirectories_eq] at programs
  simp only [hierarchyList, reached_append, ← DirectoryList.join_of_distinct]
  simp only [pathOfPrograms, Traced.value_bind, programDirectories_eq, programs]
  generalize reached tree finder.expander finder.options.overrideDirectory
    (List.flatMap (contributed tree finder.config.catalog) _) = front
  -- either the programs alone pass the limit, or the mandatory hierarchies go on from their list
  cases listed : distinct finder.options.limit front with
  | error failure =>
    rw [DirectoryList.distinct_append_of_error listed]
    rfl
  | ok list =>
    cases includeMandatory with
    | false => simp [listed]
    | true =>
      have mandatory := addHierarchies_value tree finder
        (mandatoryHierarchies finder.config.catalog) listed
      simp only [if_true, Traced.value_bind, mandatoryKeys_eq, mandatory]
      cases distinct finder.options.limit _ <;> rfl

end Loops

/-! ## How the list depends on the path -/

section Path

variable (tree : FileTree) (expander : Expander) (override? : Option Text) (catalog : Catalog)

theorem segments_join_eraseDups (path : Text) :
    SearchPath.segments (SearchPath.join (SearchPath.segments path).eraseDups) =
      (SearchPath.segments path).eraseDups := by
  obtain ⟨first, rest, same⟩ := List.exists_cons_of_ne_nil (SearchPath.segments_ne_nil path)
  refine SearchPath.segments_join_of_subset ?_ fun _ member => List.mem_eraseDups.mp member
  rw [same, List.eraseDups_cons]
  simp

theorem hierarchyList_eraseDups (path : Text) (includeMandatory : Bool) :
    hierarchyList tree expander override? catalog
        (SearchPath.join (SearchPath.segments path).eraseDups) includeMandatory =
      hierarchyList tree expander override? catalog path includeMandatory := by
  simp only [hierarchyList, segments_join_eraseDups, reached_append, reached_flatMap]
  rw [← eraseDups_filter, ← eraseDups_append_left, eraseDups_flatMap, eraseDups_append_left]

theorem hierarchyList_prefix (path more : Text) :
    hierarchyList tree expander override? catalog path false <+:
      hierarchyList tree expander override? catalog (path ++ ':' :: more) false := by
  simp only [hierarchyList, SearchPath.segments_append_colon, List.filter_append,
    List.flatMap_append, List.append_nil, reached_append, Bool.false_eq_true, if_false]
  exact eraseDups_prefix_append _ _

end Path

/-- For every configuration, tree, expander and path there is one list of directories, whatever
    the limit: the answer is all of it, or the failure if it is longer than the limit.  It does
    not depend on repetitions in the path, and a longer path only makes the list longer, up to
    where the mandatory hierarchies begin. -/
theorem pathOfPrograms_outcome (tree : FileTree) (finder : Finder) (path : Text)
    (includeMandatory : Bool) :
    let listed := hierarchyList tree finder.expander finder.options.overrideDirectory
      finder.config.catalog
    (∀ limit, (pathOfPrograms tree { finder with options := { finder.options with limit } } path
        includeMandatory).value =
      if (listed path includeMandatory).length ≤ limit then
        .ok (SearchPath.join (listed path includeMandatory))
      else .error (.tooManyDirectories limit)) ∧
    listed (SearchPath.join (SearchPath.segments path).eraseDups) includeMandatory =
      listed path includeMandatory ∧
    ∀ more, listed path false <+: listed (path ++ ':' :: more) false := by
  intro listed
  refine ⟨fun limit => ?_, ?_, fun more => ?_⟩
  · exact pathOfPrograms_value tree { finder with options := { finder.options with limit } } path
      includeMandatory
  · exact hierarchyList_eraseDups ..
  · exact hierarchyList_prefix ..

end Finder

end ManualPages
