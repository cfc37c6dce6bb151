import ManualPages.Proofs.CachePath.Distinctness
import ManualPages.Proofs.CachePath.LegacyLayout
import ManualPages.Proofs.Text.Pieces

/-! # The normal form of the older layout

A path in the older layout is its root with names behind it, one for each segment that is kept.  The
loop over the segments puts a text together; here it is a list of names (`ofSegments_eq`), and since
a slash always ends a segment, the names of a path are those of its parts one after the other.
The older layout itself does not lie below the root of the hierarchies, so nothing is carried over
twice.

* `Segment`, `segment_of_noSlash` — the four things that a segment can be.
* `nameOf?`, `names` — the name that a segment is kept as, and those that a path leads to.
* `ofSegments_eq`, `ordinary_of_mem_names` — the loop by its names, none of which it would touch.
* `names_append_slash`, `names_slashes`, `cacheDirectory_below_slashes` — paths in parts.
* `cacheDirectory_cacheDirectory` — paths in the older layout stay.
* `cacheDirectory_normalForm` — the normal form, composition and idempotence.
-/

namespace ManualPages

namespace Legacy

/-! ## Segments -/

/-- What a text between two slashes can be. -/
inductive Segment : Text → Prop
  | empty : Segment []
  | hierarchy : Segment "man".toList
  | pages {suffix : Text} (nonempty : suffix ≠ []) (noSlash : '/' ∉ suffix) :
      Segment ("man".toList ++ suffix)
  | ordinary {name : Text} (ordinary : Ordinary name) : Segment name

theorem segment_of_noSlash {segment : Text} (noSlash : '/' ∉ segment) : Segment segment := by
  by_cases begins : "man".toList <+: segment
  · obtain ⟨suffix, rfl⟩ := begins
    cases suffix with
    | nil => exact .hierarchy
    | cons c rest => exact .pages (by simp) fun member => noSlash (List.mem_append_right _ member)
  · cases segment with
    | nil => exact .empty
    | cons c rest => exact .ordinary ⟨by simp, noSlash, begins⟩

/-! ## Names -/

/-- The name that a segment is kept as, unless it is empty or the directory of a hierarchy. -/
def nameOf? (segment : Text) : Option Text :=
  if segment = [] ∨ segment = "man".toList then none
  else if "man".toList <+: segment then some ("cat".toList ++ segment.drop 3)
  else some segment

/-- The names that a path leads to in the older layout, in order. -/
def names (path : Text) : List Text := (path.splitOn '/').filterMap nameOf?

theorem nameOf?_of_ordinary {name : Text} (ordinary : Ordinary name) : nameOf? name = some name := by
  have kept : ¬ (name = [] ∨ name = "man".toList) := by
    rintro (rfl | rfl)
    · exact ordinary.nonempty rfl
    · exact ordinary.notPages (List.prefix_refl _)
  rw [nameOf?, if_neg kept, if_neg ordinary.notPages]

theorem nameOf?_pages {suffix : Text} (nonempty : suffix ≠ []) :
    nameOf? ("man".toList ++ suffix) = some ("cat".toList ++ suffix) := by
  have kept : ¬ ("man".toList ++ suffix = [] ∨ "man".toList ++ suffix = "man".toList) := by
    simpa using nonempty
  rw [nameOf?, if_neg kept, if_pos (List.prefix_append _ suffix)]
  rfl

theorem ofSegment_eq {segment : Text} (cut : Segment segment) (nonempty : segment ≠ []) :
    ofSegment segment = (nameOf? segment).toList.flatMap ('/' :: ·) := by
  cases cut with
  | empty => contradiction
  | hierarchy => rfl
  | pages written _ =>
    rw [nameOf?_pages written]
    exact (ofSegment_pages written).trans (List.flatMap_singleton _ _).symm
  | ordinary ordinary =>
    rw [nameOf?_of_ordinary ordinary]
    exact (ofSegment_of_ordinary ordinary).trans (List.flatMap_singleton _ _).symm

theorem flatMap_ofSegment_eq {segments : List Text} (cut : ∀ segment ∈ segments, Segment segment) :
    (segments.filter (! ·.isEmpty)).flatMap ofSegment =
      (segments.filterMap nameOf?).flatMap ('/' :: ·) := by
  induction segments with
  | nil => rfl
  | cons segment rest ih =>
    obtain ⟨first, others⟩ := List.forall_mem_cons.mp cut
    by_cases nothing : segment = []
    · subst nothing
      exact ih others
    · have kept := ofSegment_eq first nothing
      rw [List.filter_cons_of_pos (by simpa using nothing), List.flatMap_cons, ih others, kept]
      cases named : nameOf? segment <;> simp [named]

theorem segment_of_mem_splitOn {path segment : Text} (member : segment ∈ path.splitOn '/') :
    Segment segment :=
  segment_of_noSlash (notMem_of_mem_splitOn member)

theorem ofSegments_eq (path : Text) : ofSegments path = (names path).flatMap ('/' :: ·) :=
  flatMap_ofSegment_eq fun _ => segment_of_mem_splitOn

theorem ordinary_of_mem_names {path name : Text} (member : name ∈ names path) : Ordinary name := by
  obtain ⟨segment, found, kept⟩ := List.mem_filterMap.mp member
  cases segment_of_mem_splitOn found with
  | empty => cases kept
  | hierarchy => cases kept
  | @pages suffix nonempty noSlash =>
    rw [nameOf?_pages nonempty] at kept
    obtain rfl := Option.some.inj kept
    exact ⟨by simp, by simpa using noSlash, CachePath.not_pages_prefix_formatted suffix⟩
  | ordinary ordinary =>
    rw [nameOf?_of_ordinary ordinary] at kept
    obtain rfl := Option.some.inj kept
    exact ordinary

/-! ## Paths in parts -/

theorem names_append_slash (before behind : Text) :
    names (before ++ '/' :: behind) = names before ++ names behind := by
  rw [names, List.splitOn_append_cons_self, List.filterMap_append]
  rfl

theorem names_slashes (slashes : Nat) (path : Text) :
    names (List.replicate slashes '/' ++ path) = names path := by
  induction slashes with
  | zero => rfl
  | succ slashes ih =>
    rw [List.replicate_succ, List.cons_append]
    exact (names_append_slash [] _).trans ih

theorem cacheDirectory_eq (rest : Text) :
    cacheDirectory (manualRoot ++ rest) = below cacheRoot (names rest) := by
  rw [cacheDirectory_root, ofSegments_eq, below]

/-- However many slashes there are between a directory and a path below it. -/
theorem cacheDirectory_below_slashes {directory : Text} (root : manualRoot <+: directory)
    (slashes : Nat) (path : Text) :
    cacheDirectory (directory ++ '/' :: (List.replicate slashes '/' ++ path)) =
      below (cacheDirectory directory) (names path) := by
  obtain ⟨rest, rfl⟩ := root
  have inside : names (rest ++ '/' :: (List.replicate slashes '/' ++ path)) =
      names rest ++ names path := by
    rw [names_append_slash, names_slashes slashes path]
  rw [List.append_assoc, cacheDirectory_eq, cacheDirectory_eq, inside, below, below, below,
    List.flatMap_append, List.append_assoc]

theorem cacheDirectory_slashes {directory : Text} (root : manualRoot <+: directory) (slashes : Nat) :
    cacheDirectory (directory ++ List.replicate slashes '/') = cacheDirectory directory := by
  cases slashes with
  | zero => rw [List.replicate_zero, List.append_nil]
  | succ slashes =>
    have nothing := cacheDirectory_below_slashes root slashes []
    rw [List.append_nil] at nothing
    exact nothing.trans (List.append_nil _)

/-! ## Paths in the older layout -/

theorem not_manualRoot_prefix_cacheRoot (rest : Text) : ¬ manualRoot <+: cacheRoot ++ rest := by
  rintro ⟨more, same⟩
  have second : some 'u' = some 'v' := congrArg (fun t : Text => t[1]?) same
  exact absurd second (by decide)

theorem cacheDirectory_cacheDirectory (directory : Text) :
    cacheDirectory (cacheDirectory directory) = cacheDirectory directory := by
  by_cases root : manualRoot <+: directory
  · obtain ⟨rest, rfl⟩ := root
    rw [cacheDirectory_root]
    exact cacheDirectory_of_elsewhere (not_manualRoot_prefix_cacheRoot _)
  · rw [cacheDirectory_of_elsewhere root, cacheDirectory_of_elsewhere root]

/-- The older layout of a path below the root of the hierarchies is its own root with names behind
    it, each an ordinary one.  What follows a slash adds its names and nothing else, so neither
    slashes in a row nor those at the end matter.  All other paths stay as they are, and so do those
    that are in the older layout already. -/
theorem cacheDirectory_normalForm :
    let added (path : Text) : Text := (names path).flatMap ('/' :: ·)
    (∀ rest, cacheDirectory ("/usr".toList ++ rest) = "/var/catman".toList ++ added rest ∧
      ∀ name ∈ names rest, Ordinary name) ∧
    (∀ path, cacheDirectory ("/usr/".toList ++ path) = "/var/catman".toList ++ added path) ∧
    (∀ directory, "/usr".toList <+: directory → ∀ slashes path,
      cacheDirectory (directory ++ '/' :: (List.replicate slashes '/' ++ path)) =
          cacheDirectory directory ++ added path ∧
        cacheDirectory (directory ++ List.replicate slashes '/') = cacheDirectory directory) ∧
    (∀ directory, ¬ "/usr".toList <+: directory → cacheDirectory directory = directory) ∧
    ∀ directory, cacheDirectory (cacheDirectory directory) = cacheDirectory directory := by
  intro added
  refine ⟨fun rest => ⟨?_, ?_⟩, fun path => ?_, fun directory root slashes path => ⟨?_, ?_⟩,
    fun directory elsewhere => ?_, cacheDirectory_cacheDirectory⟩
  · exact cacheDirectory_eq rest
  · exact fun name => ordinary_of_mem_names
  · -- the slash belongs to the rest, where it ends an empty segment
    exact (cacheDirectory_eq ('/' :: path)).trans (congrArg (below cacheRoot) (names_slashes 1 path))
  · exact cacheDirectory_below_slashes root slashes path
  · exact cacheDirectory_slashes root slashes
  · exact cacheDirectory_of_elsewhere elsewhere

/-- Segments with the directory of pages in their names behind a directory that does not end where
    a segment of the root does. -/
theorem cacheDirectory_normalForm_of_slashes :
    let directory := "/usr.d/man".toList
    let path := "X11R6/man/manman1//mann/".toList
    "/usr".toList <+: directory ∧
      cacheDirectory (directory ++ '/' :: (List.replicate 2 '/' ++ path)) =
        cacheDirectory directory ++ "/X11R6/catman1/catn".toList ∧
      cacheDirectory (directory ++ List.replicate 2 '/') = "/var/catman/.d".toList ∧
      cacheDirectory "/opt//man/".toList = "/opt//man/".toList := by
  intro directory path
  have root : "/usr".toList <+: directory := by decide
  obtain ⟨-, -, parts, elsewhere, -⟩ := cacheDirectory_normalForm
  obtain ⟨behind, atEnd⟩ := parts directory root 2 path
  refine ⟨root, behind.trans ?_, atEnd.trans ?_, elsewhere _ (by decide)⟩
  · decide
  · decide

end Legacy

end ManualPages
