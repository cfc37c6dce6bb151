import ManualPages.Finder.Basic
import ManualPages.Proofs.Wildcard.Expansion

/-! # What a finder sees of a tree

A finder that is loaded asks a tree only what its paths are, which names are in its directories, what
its paths are without links, what the current directory is, and what patterns expand to.  Two trees
that answer this alike give all its questions the same answers and the same reports.  Trees that
differ in the contents of files are such trees, as long as the expander does not read them.

* `FileTree.LooksLike` — two trees that answer alike.
* `looksLike_overwrite` — a tree before and after a file is written to.
* `SystemDirectories.extend_congr`, `DirectoryList.ofPath_congr`, `LocaleDirectories.forLocales_congr`,
  `Finder.mandatoryPath_congr`, `Finder.pathOfPrograms_congr`, `Finder.loadedManualPath_congr` — the
  questions, each with its loops.
-/

namespace ManualPages

/-- Two trees answer alike what is asked of them without reading a file. -/
structure FileTree.LooksLike (expander : Expander) (tree other : FileTree) : Prop where
  probe : other.probe = tree.probe
  names : other.names? = tree.names?
  canonical : other.canonical? = tree.canonical?
  current : other.currentPath? = tree.currentPath?
  expand : expander.expand other = expander.expand tree

theorem looksLike_overwrite {expander : Expander} {path : Octets}
    (ignores : expander.IgnoresContents path) (tree : FileTree) (content : Octets) :
    tree.LooksLike expander (tree.overwrite path content) where
  probe := by
    funext other
    rw [← FileTree.probe_outline, FileTree.outline_overwrite, FileTree.probe_outline]
  names := by
    funext directory
    rw [← FileTree.names?_outline, FileTree.outline_overwrite, FileTree.names?_outline]
  canonical := by
    funext other
    rw [← FileTree.canonical?_outline, FileTree.outline_overwrite, FileTree.canonical?_outline]
  current := by
    rw [← FileTree.currentPath?_outline, FileTree.outline_overwrite, FileTree.currentPath?_outline]
  expand := by
    funext pattern
    exact ignores tree content pattern

variable {expander : Expander} {tree other : FileTree}

theorem FileTree.LooksLike.refl (tree : FileTree) : tree.LooksLike expander tree :=
  ⟨rfl, rfl, rfl, rfl, rfl⟩

theorem FileTree.LooksLike.trans {third : FileTree} (first : tree.LooksLike expander other)
    (second : other.LooksLike expander third) : tree.LooksLike expander third where
  probe := second.probe.trans first.probe
  names := second.names.trans first.names
  canonical := second.canonical.trans first.canonical
  current := second.current.trans first.current
  expand := second.expand.trans first.expand

theorem FileTree.LooksLike.isDirectory (same : tree.LooksLike expander other) :
    other.isDirectory = tree.isDirectory := by
  funext path
  rw [FileTree.isDirectory, FileTree.isDirectory, same.probe]

section Directories

variable (same : tree.LooksLike expander other)

include same

/-! ## Directories of systems and locales -/

theorem SystemDirectories.extend_congr : extend other = extend tree := by
  have element : addElement other = addElement tree := by
    funext system result element
    rw [addElement, addElement, same.probe]
  have system : addSystem other = addSystem tree := by
    funext path result system
    rw [addSystem, addSystem, element]
  funext systems? path
  rw [extend, extend, system]

theorem LocaleDirectories.forLocales_congr : forLocales other = forLocales tree := by
  have element : ofElement other = ofElement tree := by
    funext locale element
    simp only [ofElement, childrenOf, same.names, same.isDirectory]
  have one : forLocale? other = forLocale? tree := by
    funext path name
    rw [forLocale?, forLocale?, candidates, candidates, element]
  have pieces (path : Text) (names : List Text) :
      piecesFor other path names = piecesFor tree path names := by
    induction names with
    | nil => rfl
    | cons name rest ih => rw [piecesFor, piecesFor, one, ih]
  funext path names
  simp only [forLocales, pieces]

/-! ## Lists of directories -/

namespace DirectoryList

theorem addNewCandidates_congr (list : DirectoryList) (candidates : List Text) :
    addNewCandidates other list candidates = addNewCandidates tree list candidates := by
  induction candidates generalizing list with
  | nil => rfl
  | cons candidate rest ih => simp only [addNewCandidates, same.probe, ih]

theorem addNew_congr : addNew other expander = addNew tree expander := by
  funext list pattern
  simp only [addNew, same.expand, addNewCandidates_congr same]

theorem gatherCandidates_congr (list : DirectoryList) (candidates : List Text) :
    gatherCandidates other list candidates = gatherCandidates tree list candidates := by
  induction candidates generalizing list with
  | nil => rfl
  | cons candidate rest ih =>
    simp only [gatherCandidates, same.probe, absolute, same.current, ih]

theorem gather_congr (list : DirectoryList) (patterns : List Text) :
    gather other expander list patterns = gather tree expander list patterns := by
  induction patterns generalizing list with
  | nil => rfl
  | cons pattern rest ih => simp only [gather, same.expand, gatherCandidates_congr same, ih]

theorem resolveAll_congr (survivors : List Text) (position : Nat) (entries : List Text) :
    resolveAll other survivors position entries = resolveAll tree survivors position entries := by
  -- the reports count entries from `position`, so the induction is over any position
  have target : resolved other = resolved tree := by
    funext directory
    rw [resolved, resolved, same.canonical]
  induction entries generalizing survivors position with
  | nil => rfl
  | cons entry rest ih =>
    rw [resolveAll, resolveAll, target]
    simp only [ih]

theorem ofPath_congr : ofPath other expander = ofPath tree expander := by
  funext limit path
  simp only [ofPath, gather_congr same, resolveAll_congr same]

end DirectoryList

end Directories

/-! ## Search paths -/

namespace Finder

variable {finder : Finder} (same : tree.LooksLike finder.expander other)

include same

theorem mandatoryPath_congr : mandatoryPath other finder = mandatoryPath tree finder := by
  have candidate : addMandatory other = addMandatory tree := by
    funext result candidate
    rw [addMandatory, addMandatory, same.probe]
  have pattern : addMandatoryPattern other finder.expander =
      addMandatoryPattern tree finder.expander := by
    funext result pattern
    rw [addMandatoryPattern, addMandatoryPattern, same.expand, candidate]
  rw [mandatoryPath, mandatoryPath, pattern]

theorem addPatterns_congr (list : DirectoryList) (patterns : List Text) :
    addPatterns other finder.expander list patterns =
      addPatterns tree finder.expander list patterns := by
  induction patterns generalizing list with
  | nil => rfl
  | cons pattern rest ih => simp only [addPatterns, DirectoryList.addNew_congr same, ih]

theorem addHierarchies_congr : addHierarchies other finder = addHierarchies tree finder := by
  funext list hierarchies
  rw [addHierarchies, addHierarchies, addPatterns_congr same]

theorem addPrograms_congr (list : DirectoryList) (programs : List Text) :
    addPrograms other finder list programs = addPrograms tree finder list programs := by
  induction programs generalizing list with
  | nil => rfl
  | cons first rest ih =>
    simp only [addPrograms, programEvents, hierarchiesOf, hierarchyBeside?, same.isDirectory,
      addHierarchies_congr same, ih]

theorem pathOfPrograms_congr : pathOfPrograms other finder = pathOfPrograms tree finder := by
  funext path includeMandatory
  simp only [pathOfPrograms, addPrograms_congr same, addHierarchies_congr same]

theorem systemPath_congr : systemPath other finder = systemPath tree finder := by
  funext systems? path
  rw [systemPath, systemPath, SystemDirectories.extend_congr same]

theorem loadedDefaultPath_congr : loadedDefaultPath other finder = loadedDefaultPath tree finder := by
  simp only [loadedDefaultPath, configuredPath, mandatoryPath_congr same,
    pathOfPrograms_congr same, systemPath_congr same]

theorem loadedManualPath_congr : loadedManualPath other finder = loadedManualPath tree finder := by
  simp only [loadedManualPath, overriddenPath, loadedDefaultPath_congr same, systemPath_congr same]

end Finder

end ManualPages
