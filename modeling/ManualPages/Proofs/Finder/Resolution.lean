import ManualPages.Proofs.Finder.Programs

/-! # The final list of the hierarchies found

The hierarchies of a path for programs and their final list have one limit, but they count
differently: the hierarchies as they are written, each once, and the final list all directories
that its path stands for.  Where the elements of the path stand for themselves the two counts are
the same, so what the limit let in once it lets in again.

* `placedIn` — the absolute form of a directory, whatever the current directory is.
* `ofPath_of_self` — the final list of a path whose elements are directories and stand for
  themselves.
* `isDirectory_of_mem_hierarchyList` — the hierarchies that are found are directories.
* `directoryList_of_pathOfPrograms` — the final list of the hierarchies found.
-/

namespace ManualPages

namespace DirectoryList

/-! ## Elements that stand for themselves -/

/-- The absolute form of a directory, relative to a current directory that need not be a text. -/
def placedIn (cwd : Octets) (directory : Text) : Text :=
  if directory.head? = some '/' then directory
  else Octets.decodeLossy (cwd.join (Octets.encode directory))

variable {tree : FileTree} {expander : Expander} {cwd : Octets} {directories : List Text}

theorem absolute_of_known (known : tree.currentPath? = some cwd) :
    absolute tree = fun directory => .ok (placedIn cwd directory) := by
  funext directory
  rw [absolute, placedIn, known]
  split <;> rfl

theorem ofPath_of_self {path : Text} {limit : Nat} (known : tree.currentPath? = some cwd)
    (elements : SearchPath.entries path = directories)
    (found : ∀ directory ∈ directories, tree.isDirectory directory)
    (self : ∀ directory ∈ directories, (expander.expand tree directory).value = [directory])
    (room : directories.length ≤ limit) :
    (ofPath tree expander limit path).value =
      .ok ⟨((directories.map (placedIn cwd)).map (resolved tree)).eraseDups, limit⟩ := by
  rw [ofPath_eq_ok_iff, elements, directoriesOf_of_self found self, absolute_of_known known]
  exact ⟨directories.map (placedIn cwd), List.mapM_pure, by simpa using room, rfl⟩

end DirectoryList

namespace Finder

/-! ## The hierarchies found -/

section Found

variable {tree : FileTree} {expander : Expander} {override? : Option Text} {catalog : Catalog}
  {path : Text} {includeMandatory : Bool}

theorem isDirectory_of_mem_hierarchyList {directory : Text}
    (member : directory ∈ hierarchyList tree expander override? catalog path includeMandatory) :
    tree.isDirectory directory :=
  DirectoryList.isDirectory_of_mem_directoriesOf (List.mem_eraseDups.mp member)

theorem nil_notMem_hierarchyList :
    [] ∉ hierarchyList tree expander override? catalog path includeMandatory := by
  intro member
  simpa [FileTree.isDirectory_nil] using isDirectory_of_mem_hierarchyList member

end Found

/-- If the hierarchies of a path for programs are found, have no colon in them and stand for
    themselves, there is a final list of them, whatever the limit: it is their forms without links,
    each at its first occurrence, where a directory that has none stands for itself. -/
theorem directoryList_of_pathOfPrograms (tree : FileTree) (finder : Finder) (path : Text)
    (includeMandatory : Bool) (cwd : Octets) (known : tree.currentPath? = some cwd) (answer : Text)
    (answered : (pathOfPrograms tree finder path includeMandatory).value = .ok answer) :
    let listed := hierarchyList tree finder.expander finder.options.overrideDirectory
      finder.config.catalog path includeMandatory
    (∀ directory ∈ listed, ':' ∉ directory) →
    (∀ directory ∈ listed, (finder.expander.expand tree directory).value = [directory]) →
      SearchPath.entries answer = listed ∧
      (directoryList tree finder answer).value =
        .ok ⟨((SearchPath.entries answer).map fun directory =>
          let absolute := DirectoryList.placedIn cwd directory
          (tree.canonical? absolute).getD absolute).eraseDups, finder.options.limit⟩ := by
  intro listed whole self
  rw [pathOfPrograms_value] at answered
  change (if listed.length ≤ finder.options.limit then _ else _) = _ at answered
  split at answered
  next room =>
    obtain rfl : SearchPath.join listed = answer := Except.ok.inj answered
    have elements : SearchPath.entries (SearchPath.join listed) = listed :=
      SearchPath.entries_join_of_whole nil_notMem_hierarchyList whole
    have found : ∀ directory ∈ listed, tree.isDirectory directory := fun _ member =>
      isDirectory_of_mem_hierarchyList member
    -- `room` was the bound of the list, and it is the bound of the candidates now
    refine ⟨elements, ?_⟩
    rw [directoryList, DirectoryList.ofPath_of_self known elements found self room, elements,
      List.map_map]
    rfl
  next => contradiction

/-- A mapped hierarchy that is a link to a guessed one, and a mandatory one, in a full list. -/
def mappedToLink : Finder where
  config := {
    catalog := ⟨[⟨"/bin".toList, "/alias".toList, .programMap⟩, ⟨"/usr".toList, [], .mandatory⟩]⟩
    loaded := true }
  options := { limit := 3 }
  expander := .table []

/-- The guessed hierarchy, which is relative, comes first in its absolute form; the link to it is
    left out. -/
theorem directoryList_of_pathOfPrograms_of_link :
    let tree := DirectoryList.linked
    let answer := "opt/man:/alias:/usr".toList
    tree.currentPath? = some (Octets.encode "/".toList) ∧
      (pathOfPrograms tree mappedToLink "opt/bin:.:/bin".toList true).value = .ok answer ∧
      (directoryList tree mappedToLink answer).value =
        .ok ⟨["/opt/man".toList, "/usr".toList], 3⟩ := by
  intro tree answer
  have known : tree.currentPath? = some (Octets.encode "/".toList) := by decide
  have answered : (pathOfPrograms tree mappedToLink "opt/bin:.:/bin".toList true).value =
      .ok answer := by rfl
  obtain ⟨-, resolved⟩ := directoryList_of_pathOfPrograms tree mappedToLink "opt/bin:.:/bin".toList
    true _ known answer answered (by decide) fun _ _ => rfl
  refine ⟨known, answered, resolved.trans ?_⟩
  decide

end Finder

end ManualPages
