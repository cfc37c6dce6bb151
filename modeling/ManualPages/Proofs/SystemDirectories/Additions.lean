import ManualPages.Proofs.SystemDirectories.Extension

/-! # What alternate systems add

Everything that the search path for systems has besides the path itself is a directory of a system in
a segment of the path.  A segment that is empty counts as well, and its directory lies at the root of
the file tree; so additions lie in elements of the path, unless there is an empty segment and one of
the systems has the name of a directory at the root.

* `asked`, `Adds`, `adds_iff` — the systems that are asked for, and the entries that they add.
* `BelowElement`, `AddsAtRoot` — additions in an element of the path, and those of an empty segment.
* `adds_below_elements_iff` — where additions lie.
-/

namespace ManualPages.SystemDirectories

open SearchPath (segments entries)

variable {tree : FileTree} {systems? : Option Text} {path entry : Text}

/-! ## Additions -/

/-- The systems that are asked for, none where there is no list of them. -/
def asked (systems? : Option Text) : List Text := names (systems?.getD [])

/-- The entry is in the search path for systems and is no segment of the path. -/
def Adds (tree : FileTree) (systems? : Option Text) (path entry : Text) : Prop :=
  entry ∈ entries (extend tree systems? path).value ∧ entry ∉ segments path

instance : Decidable (Adds tree systems? path entry) := inferInstanceAs (Decidable (_ ∧ _))

theorem extend_asked (tree : FileTree) (systems? : Option Text) (path : Text) :
    (extend tree systems? path).value = (extend tree (some (systems?.getD [])) path).value := by
  cases systems? with
  | none => rfl
  | some systems => rfl

theorem mem_entries_extend_of_absent {systems : Text} (absent : entry ∉ segments path) :
    entry ∈ entries (extend tree (some systems) path).value ↔
      ∃ system ∈ names systems, ∃ candidate ∈ contributions tree path system,
        entry ∈ entries candidate := by
  rw [mem_entries_extend_iff]
  exact or_iff_left fun ⟨_, member⟩ => absent (List.mem_of_mem_filter member)

theorem adds_iff :
    Adds tree systems? path entry ↔
      entry ∉ segments path ∧ ∃ system ∈ asked systems?, system ≠ native ∧
        ∃ segment ∈ segments path, entry = directoryOf segment system ∧ tree.isDirectory entry := by
  rw [Adds, extend_asked, and_comm]
  refine and_congr_right fun absent => ?_
  rw [mem_entries_extend_of_absent absent]
  constructor
  · rintro ⟨system, member, candidate, offers, inside⟩
    by_cases same : system = native
    · rw [same, contributions, if_pos rfl, List.mem_singleton] at offers
      rw [offers] at inside
      exact absurd (List.mem_of_mem_filter inside) absent
    · exact ⟨system, member, same,
        (mem_entries_of_foreign member same).mp ⟨candidate, offers, inside⟩⟩
  · rintro ⟨system, member, foreign, added⟩
    exact ⟨system, member, (mem_entries_of_foreign member foreign).mpr added⟩

/-! ## Where they lie -/

/-- The directory of one of the systems in an element of the path, which is not empty. -/
def BelowElement (systems? : Option Text) (path entry : Text) : Prop :=
  ∃ element ∈ entries path, ∃ system ∈ asked systems?, entry = directoryOf element system

instance : Decidable (BelowElement systems? path entry) :=
  inferInstanceAs (Decidable (∃ element ∈ _, ∃ system ∈ _, _))

/-- An empty segment of the path adds the directory of a system at the root of the file tree, which is
    no directory of a system in an element of the path, however it is written. -/
structure AddsAtRoot (tree : FileTree) (systems? : Option Text) (path system : Text) : Prop where
  offered : system ∈ asked systems?
  foreign : system ≠ native
  emptySegment : [] ∈ segments path
  found : tree.isDirectory ('/' :: system)
  absent : '/' :: system ∉ segments path
  apart : ¬ BelowElement systems? path ('/' :: system)

/-- Every addition is the directory of a system other than the native one in a segment of the path,
    and it exists.  All additions lie in elements of the path exactly if no empty segment adds a
    directory at the root. -/
theorem adds_below_elements_iff (tree : FileTree) (systems? : Option Text) (path : Text) :
    (∀ entry, Adds tree systems? path entry →
      ∃ system ∈ asked systems?, system ≠ native ∧
        ∃ segment ∈ segments path, entry = directoryOf segment system ∧ tree.isDirectory entry) ∧
    ((∀ entry, Adds tree systems? path entry → BelowElement systems? path entry) ↔
      ∀ system, ¬ AddsAtRoot tree systems? path system) := by
  refine ⟨fun entry added => (adds_iff.mp added).2, ?_, ?_⟩
  · intro below system atRoot
    have added : Adds tree systems? path ('/' :: system) :=
      adds_iff.mpr ⟨atRoot.absent, system, atRoot.offered, atRoot.foreign, [], atRoot.emptySegment,
        rfl, atRoot.found⟩
    exact atRoot.apart (below _ added)
  · intro noneAtRoot entry added
    obtain ⟨absent, system, offered, foreign, segment, cut, rfl, found⟩ := adds_iff.mp added
    by_cases empty : segment = []
    · subst empty
      by_contra apart
      exact noneAtRoot system ⟨offered, foreign, cut, found, absent, apart⟩
    · exact ⟨segment, List.mem_filter.mpr ⟨cut, by simpa using empty⟩, system, offered, rfl⟩

/-- Two hierarchies with a colon too many between them in the path, and a system that is named as any
    directory itself: the root is added as a directory of that system. -/
theorem adds_root_of_empty_segment :
    let tree : FileTree := {
      root := .directory [
        (Octets.encode "usr".toList, .directory [(Octets.encode "man".toList, .directory [])]),
        (Octets.encode "opt".toList, .directory [(Octets.encode "man".toList, .directory [])])] }
    let path := "/usr/man::/opt/man".toList
    let systems? := some ".".toList
    (extend tree systems? path).value = "/usr/man/.:/.:/opt/man/.".toList ∧
      Adds tree systems? path "/.".toList ∧ ¬ BelowElement systems? path "/.".toList := by
  decide

end ManualPages.SystemDirectories
