import ManualPages.DirectoryList
import ManualPages.Proofs.FileTree.Canonical
import ManualPages.Proofs.FirstOccurrences

/-! # The final list of a search path

The final list is told without its loops: the candidates of a path are found by filtering, the
limit counts them, and the list is their forms without links, each at its first occurrence.

* `directoriesOf`, `absoluteIn`, `candidates` — the directories that patterns stand for.
* `addAll` — many entries at once, which the limit lets in all or not at all.
* `gather_value`, `resolveAll_value` — the two halves of making the list.
* `ofPath_eq_ok_iff` — when there is a final list, wherever the current directory is.
* `ofPath_outcome` — the final list, or the failure, from the candidates.
-/

namespace ManualPages

/-! ## Steps that may fail -/

section Steps

variable {ε α β : Type}

@[simp] theorem ok_bind (a : α) (f : α → Except ε β) : Except.ok a >>= f = f a := rfl

@[simp] theorem error_bind (e : ε) (f : α → Except ε β) : Except.error e >>= f = .error e := rfl

end Steps

/-! ## The current directory -/

theorem FileTree.head?_of_currentPath? {tree : FileTree} {cwd : Text}
    (known : tree.currentPath? = some (Octets.encode cwd)) : cwd.head? = some '/' := by
  rw [← Octets.head?_encode_slash]
  obtain ⟨-, same⟩ := Option.ite_none_right_eq_some.mp known
  rw [← Option.some.inj same]
  exact of_decide_eq_true tree.current.isAbsolute_path

namespace DirectoryList

def absoluteIn (cwd directory : Text) : Text :=
  if directory.head? = some '/' then directory
  else if cwd.getLast? = some '/' then cwd ++ directory
  else cwd ++ '/' :: directory

/-- The absolute form of a directory is the join of the current directory and it. -/
theorem encode_absoluteIn {cwd : Text} (rooted : cwd.head? = some '/') (directory : Text) :
    Octets.encode (absoluteIn cwd directory) =
      (Octets.encode cwd).join (Octets.encode directory) := by
  have nonempty : Octets.encode cwd ≠ [] := by
    intro empty
    have rootedCwd := (Octets.head?_encode_slash cwd).mpr rooted
    simp [empty] at rootedCwd
  unfold absoluteIn
  by_cases absolute : directory.head? = some '/'
  · simp [absolute, Octets.join, Octets.isAbsolute, Octets.head?_encode_slash]
  · have relative : ¬ (Octets.encode directory).isAbsolute := by
      simpa [Octets.isAbsolute, Octets.head?_encode_slash] using absolute
    rw [if_neg absolute]
    simp only [Octets.join, relative, nonempty, or_self, if_false, Bool.false_eq_true,
      Octets.getLast?_encode_slash]
    split
    · rw [Octets.encode_append]
    · rw [Octets.encode_append, Octets.encode_cons_slash]

theorem absolute_eq {tree : FileTree} {cwd : Text}
    (known : tree.currentPath? = some (Octets.encode cwd)) (directory : Text) :
    absolute tree directory = .ok (absoluteIn cwd directory) := by
  have joined := encode_absoluteIn (FileTree.head?_of_currentPath? known) directory
  rw [absolute]
  split
  next rooted => rw [absoluteIn, if_pos rooted]
  · simp only [known, ← joined, Octets.decodeLossy_encode]

theorem head?_absoluteIn {cwd : Text} (rooted : cwd.head? = some '/') (directory : Text) :
    (absoluteIn cwd directory).head? = some '/' := by
  obtain ⟨rest, rfl⟩ := List.head?_eq_some_iff.mp rooted
  unfold absoluteIn
  split
  · assumption
  · split <;> rfl

/-! ## Candidates -/

/-- The directories that patterns stand for, in order, as the patterns lead to them. -/
def directoriesOf (tree : FileTree) (expander : Expander) (patterns : List Text) : List Text :=
  patterns.flatMap fun pattern => (expander.expand tree pattern).value.filter tree.isDirectory

theorem directoriesOf_append (tree : FileTree) (expander : Expander) (first second : List Text) :
    directoriesOf tree expander (first ++ second) =
      directoriesOf tree expander first ++ directoriesOf tree expander second :=
  List.flatMap_append

theorem directoriesOf_eq_filter {tree : FileTree} {expander : Expander} {patterns : List Text}
    (self : ∀ pattern ∈ patterns, (expander.expand tree pattern).value = [pattern]) :
    directoriesOf tree expander patterns = patterns.filter tree.isDirectory := by
  rw [directoriesOf, ← List.filter_flatMap, flatMap_eq_self self]

theorem directoriesOf_of_self {tree : FileTree} {expander : Expander} {directories : List Text}
    (found : ∀ directory ∈ directories, tree.isDirectory directory)
    (self : ∀ directory ∈ directories, (expander.expand tree directory).value = [directory]) :
    directoriesOf tree expander directories = directories := by
  rw [directoriesOf_eq_filter self, List.filter_eq_self.mpr found]

theorem isDirectory_of_mem_directoriesOf {tree : FileTree} {expander : Expander}
    {patterns : List Text} {directory : Text}
    (member : directory ∈ directoriesOf tree expander patterns) : tree.isDirectory directory := by
  obtain ⟨pattern, -, found⟩ := List.mem_flatMap.mp member
  exact (List.mem_filter.mp found).2

theorem nil_notMem_directoriesOf (tree : FileTree) (expander : Expander) (patterns : List Text) :
    [] ∉ directoriesOf tree expander patterns := by
  intro member
  simpa [FileTree.isDirectory_nil] using isDirectory_of_mem_directoriesOf member

/-- The directories that patterns stand for, in order and absolute. -/
def candidates (tree : FileTree) (expander : Expander) (cwd : Text) (patterns : List Text) :
    List Text :=
  patterns.flatMap fun pattern =>
    ((expander.expand tree pattern).value.filter tree.isDirectory).map (absoluteIn cwd)

theorem candidates_eq (tree : FileTree) (expander : Expander) (cwd : Text) (patterns : List Text) :
    candidates tree expander cwd patterns =
      (directoriesOf tree expander patterns).map (absoluteIn cwd) :=
  List.map_flatMap.symm

/-- Adds entries at the end, if the list may hold all of them. -/
def addAll (list : DirectoryList) (more : List Text) : Except Failure DirectoryList :=
  if list.size + more.length ≤ list.limit then
    .ok { list with directories := list.directories ++ more }
  else .error (.tooManyDirectories list.limit)

theorem fits_of_add {list longer : DirectoryList} {directory : Text}
    (added : list.add directory = .ok longer) : longer.size ≤ longer.limit := by
  unfold add at added
  split at added
  next room =>
    cases added
    simpa [size, Nat.succ_le_iff] using room
  · contradiction

theorem addAll_nil {list : DirectoryList} (fits : list.size ≤ list.limit) :
    list.addAll [] = .ok list := by
  simp [addAll, fits]

/-- Adding one entry and then others is adding all of them. -/
theorem addAll_cons (list : DirectoryList) (directory : Text) (more : List Text) :
    list.addAll (directory :: more) =
      match list.add directory with
      | .ok longer => longer.addAll more
      | .error failure => .error failure := by
  unfold add
  by_cases room : list.size < list.limit
  · simp only [if_pos room]
    simp [addAll, size, Nat.add_assoc, Nat.add_comm 1]
    rfl
  · rw [if_neg room, addAll, if_neg (by simp only [List.length_cons]; omega)]

theorem addAll_withLimit_eq_ok_iff (limit : Nat) (more : List Text) (longer : DirectoryList) :
    (withLimit limit).addAll more = .ok longer ↔ more.length ≤ limit ∧ longer = ⟨more, limit⟩ := by
  by_cases room : more.length ≤ limit <;> simp [addAll, withLimit, size, room, eq_comm]

variable {tree : FileTree} {cwd : Text}

/-- Adds an entry in its absolute form. -/
def addAbsolute (tree : FileTree) (list : DirectoryList) (directory : Text) :
    Except Failure DirectoryList := do
  let placed ← absolute tree directory
  list.add placed

theorem gatherCandidates_cons (list : DirectoryList) (candidate : Text) (rest : List Text) :
    (gatherCandidates tree list (candidate :: rest)).value =
      if tree.isDirectory candidate then
        match addAbsolute tree list candidate with
        | .ok longer => (gatherCandidates tree longer rest).value
        | .error failure => .error failure
      else (gatherCandidates tree list rest).value := by
  rw [gatherCandidates, FileTree.isDirectory, addAbsolute]
  cases tree.probe candidate with
  | directory =>
    cases absolute tree candidate with
    | error failure => rfl
    | ok placed =>
      simp only [ok_bind]
      cases list.add placed <;> rfl
  | notDirectory => rfl
  | unreadable cause => rfl

theorem gatherCandidates_value (list : DirectoryList) (found : List Text) :
    (gatherCandidates tree list found).value =
      (found.filter tree.isDirectory).foldlM (addAbsolute tree) list := by
  induction found generalizing list with
  | nil => rfl
  | cons candidate rest ih =>
    rw [gatherCandidates_cons]
    by_cases kept : tree.isDirectory candidate
    · rw [if_pos kept, List.filter_cons_of_pos kept, List.foldlM_cons]
      cases addAbsolute tree list candidate with
      | error failure => rfl
      | ok longer => exact ih longer
    · rw [if_neg kept, List.filter_cons_of_neg kept]
      exact ih list

/-- Gathering adds the directories of the patterns one after the other. -/
theorem gather_value (expander : Expander) (list : DirectoryList) (patterns : List Text) :
    (gather tree expander list patterns).value =
      (directoriesOf tree expander patterns).foldlM (addAbsolute tree) list := by
  induction patterns generalizing list with
  | nil => rfl
  | cons pattern rest ih =>
    simp only [gather, Traced.value_bind, gatherCandidates_value, directoriesOf,
      List.flatMap_cons, List.foldlM_append]
    cases ((expander.expand tree pattern).value.filter tree.isDirectory).foldlM
        (addAbsolute tree) list with
    | error failure => rfl
    | ok longer => exact ih longer

/-- Where the current directory is known, only the limit counts. -/
theorem foldlM_addAbsolute (known : tree.currentPath? = some (Octets.encode cwd))
    (directories : List Text) {list : DirectoryList} (fits : list.size ≤ list.limit) :
    directories.foldlM (addAbsolute tree) list =
      list.addAll (directories.map (absoluteIn cwd)) := by
  -- what is added keeps the list within its limit, which is what `ih` asks of the longer one
  induction directories generalizing list with
  | nil => exact (addAll_nil fits).symm
  | cons directory rest ih =>
    rw [List.foldlM_cons, addAbsolute, absolute_eq known, ok_bind, List.map_cons, addAll_cons]
    cases added : list.add (absoluteIn cwd directory) with
    | error failure => rfl
    | ok longer => exact ih (fits_of_add added)

/-- Entries are added one after the other exactly if all of them have an absolute form and the
    list may hold them all. -/
theorem foldlM_addAbsolute_eq_ok_iff (directories : List Text) {list longer : DirectoryList}
    (fits : list.size ≤ list.limit) :
    directories.foldlM (addAbsolute tree) list = .ok longer ↔
      ∃ placed, directories.mapM (absolute tree) = .ok placed ∧ list.addAll placed = .ok longer := by
  induction directories generalizing list with
  | nil => simp [addAll_nil fits, pure, Except.pure]
  | cons directory rest ih =>
    rw [List.foldlM_cons, List.mapM_cons, addAbsolute]
    cases absolute tree directory with
    | error failure => simp
    | ok first =>
      simp only [ok_bind]
      cases added : list.add first with
      | error failure =>
        cases rest.mapM (absolute tree) <;> simp [addAll_cons, added, pure, Except.pure]
      | ok between =>
        simp only [ok_bind]
        rw [ih (fits_of_add added)]
        cases rest.mapM (absolute tree) <;> simp [addAll_cons, added, pure, Except.pure]

/-! ## Forms without links -/

/-- Resolving entries adds to the survivors the forms that are not among them, each once. -/
theorem resolveAll_value (survivors : List Text) (position : Nat) (entries : List Text) :
    (resolveAll tree survivors position entries).value =
      survivors ++ ((entries.map (resolved tree)).filter (· ∉ survivors)).eraseDups := by
  induction entries generalizing survivors position with
  | nil => simp [resolveAll]
  | cons entry rest ih =>
    simp only [resolveAll, List.map_cons]
    cases listed : survivors.findIdx? (· = resolved tree entry) with
    | some earlier =>
      have member : resolved tree entry ∈ survivors := by
        by_contra absent
        have none_of_absent : survivors.findIdx? (· = resolved tree entry) = none := by
          simp only [List.findIdx?_eq_none_iff, decide_eq_false_iff_not]
          rintro survivor present rfl
          exact absent present
        simp [none_of_absent] at listed
      simp [ih, member]
    | none =>
      have absent : resolved tree entry ∉ survivors := by
        simp only [List.findIdx?_eq_none_iff, decide_eq_false_iff_not] at listed
        intro member
        exact listed _ member rfl
      have sifted (forms : List Text) :
          forms.filter (· ∉ survivors ++ [resolved tree entry]) =
            (forms.filter (· ∉ survivors)).filter (fun form => !form == resolved tree entry) := by
        rw [List.filter_filter]
        congr 1
        funext form
        by_cases same : form = resolved tree entry <;> by_cases old : form ∈ survivors <;>
          simp [same, old]
      -- `eraseDups` goes on with the forms other than this one, which are those not yet survivors
      rw [ih, sifted, List.filter_cons_of_pos (by simpa using absent), List.eraseDups_cons]
      simp

/-! ## The final list -/

/-- The final list is the forms of the candidates, each at its first occurrence, if the limit lets
    in all candidates. -/
theorem ofPath_value (expander : Expander) (limit : Nat) (path : Text)
    (known : tree.currentPath? = some (Octets.encode cwd)) :
    (ofPath tree expander limit path).value =
      let found := candidates tree expander cwd (SearchPath.entries path)
      if found.length ≤ limit then .ok ⟨(found.map (resolved tree)).eraseDups, limit⟩
      else .error (.tooManyDirectories limit) := by
  have fits : (withLimit limit).size ≤ (withLimit limit).limit := Nat.zero_le limit
  have gathered : ((withLimit limit).gather tree expander (SearchPath.entries path)).value =
      (withLimit limit).addAll (candidates tree expander cwd (SearchPath.entries path)) := by
    rw [gather_value, foldlM_addAbsolute known _ fits, candidates_eq]
  simp only [ofPath, Traced.value_bind, gathered]
  by_cases room : (candidates tree expander cwd (SearchPath.entries path)).length ≤ limit
  · simp [addAll, withLimit, size, room, resolveAll_value]
  · simp [addAll, withLimit, size, room]

/-- There is a final list exactly if all directories have an absolute form and the limit lets in
    all of them. -/
theorem ofPath_eq_ok_iff (expander : Expander) (limit : Nat) (path : Text) (list : DirectoryList) :
    (ofPath tree expander limit path).value = .ok list ↔
      ∃ placed, (directoriesOf tree expander (SearchPath.entries path)).mapM (absolute tree) =
          .ok placed ∧
        placed.length ≤ limit ∧ list = ⟨(placed.map (resolved tree)).eraseDups, limit⟩ := by
  have gathered (longer : DirectoryList) :
      (directoriesOf tree expander (SearchPath.entries path)).foldlM (addAbsolute tree)
          (withLimit limit) = .ok longer ↔ _ :=
    foldlM_addAbsolute_eq_ok_iff _ (Nat.zero_le limit)
  simp only [addAll_withLimit_eq_ok_iff] at gathered
  simp only [ofPath, Traced.value_bind, gather_value]
  cases answer : (directoriesOf tree expander (SearchPath.entries path)).foldlM
      (addAbsolute tree) (withLimit limit) with
  | error failure =>
    refine iff_of_false nofun ?_
    rintro ⟨placed, all, room, -⟩
    have complete := (gathered ⟨placed, limit⟩).mpr ⟨placed, all, room, rfl⟩
    rw [answer] at complete
    contradiction
  | ok longer =>
    obtain ⟨placed, all, room, rfl⟩ := (gathered longer).mp answer
    simp [all, room, resolveAll_value, eq_comm]

/-- Forms that resolve to themselves where they resolve are their own forms. -/
theorem resolved_resolved {directory : Text}
    (stable : ∀ form, tree.canonical? directory = some form → tree.canonical? form = some form) :
    resolved tree (resolved tree directory) = resolved tree directory := by
  cases resolves : tree.canonical? directory with
  | none => simp [resolved, resolves]
  | some form => simp [resolved, resolves, stable form resolves]

theorem head?_resolved {directory : Text} (rooted : directory.head? = some '/') :
    (resolved tree directory).head? = some '/' := by
  unfold resolved
  cases resolves : tree.canonical? directory with
  | none => exact rooted
  | some form => exact FileTree.head?_of_canonical? resolves

theorem head?_of_mem_candidates {expander : Expander} {patterns : List Text} {directory : Text}
    (rooted : cwd.head? = some '/') (member : directory ∈ candidates tree expander cwd patterns) :
    directory.head? = some '/' := by
  simp only [candidates, List.mem_flatMap, List.mem_map] at member
  obtain ⟨_, -, relative, -, rfl⟩ := member
  exact head?_absoluteIn rooted relative

/-- The final list of a path fails exactly if there are more candidates than the limit, counted
    with their repetitions.  Otherwise it has the form of every candidate, or the candidate itself
    where it has none, in the order of first occurrences: all entries are absolute, no two are the
    same, and if forms are stable no two have the same form. -/
theorem ofPath_outcome (tree : FileTree) (expander : Expander) (limit : Nat) (path cwd : Text)
    (known : tree.currentPath? = some (Octets.encode cwd)) :
    let found := candidates tree expander cwd (SearchPath.entries path)
    let forms := found.map fun directory => (tree.canonical? directory).getD directory
    ((ofPath tree expander limit path).value = .error (.tooManyDirectories limit) ↔
      limit < found.length) ∧
    (found.length ≤ limit → ∃ list, (ofPath tree expander limit path).value = .ok list ∧
      list.limit = limit ∧
      list.directories = forms.eraseDups ∧
      (∀ entry ∈ list.directories, entry.head? = some '/') ∧
      list.directories.Nodup ∧
      list.directories.Pairwise (fun one other => forms.idxOf one < forms.idxOf other) ∧
      (∀ directory ∈ found, (tree.canonical? directory).getD directory ∈ list.directories) ∧
      ((∀ directory ∈ found, ∀ form, tree.canonical? directory = some form →
          tree.canonical? form = some form) →
        ∀ one ∈ list.directories, ∀ other ∈ list.directories,
          (tree.canonical? one).getD one = (tree.canonical? other).getD other → one = other)) := by
  intro found forms
  have outcome := ofPath_value expander limit path known
  have rooted := FileTree.head?_of_currentPath? known
  refine ⟨?_, fun room => ?_⟩
  · rw [outcome]
    by_cases room : found.length ≤ limit
    · rw [if_pos room]
      exact iff_of_false nofun (Nat.not_lt.mpr room)
    · rw [if_neg room]
      exact iff_of_true rfl (Nat.not_le.mp room)
  · rw [show (ofPath tree expander limit path).value = .ok ⟨forms.eraseDups, limit⟩ from
      outcome.trans (if_pos room)]
    refine ⟨_, rfl, rfl, rfl, ?_, nodup_eraseDups forms, eraseDups_pairwise_idxOf forms, ?_, ?_⟩
    · intro entry member
      obtain ⟨directory, here, rfl⟩ := List.mem_map.mp (List.mem_eraseDups.mp member)
      exact head?_resolved (head?_of_mem_candidates rooted here)
    · intro directory here
      exact List.mem_eraseDups.mpr (List.mem_map_of_mem here)
    · intro stable one oneListed other otherListed same
      -- every entry is the form of a candidate, and so its own form
      have own (entry : Text) (member : entry ∈ forms.eraseDups) : resolved tree entry = entry := by
        obtain ⟨directory, here, rfl⟩ := List.mem_map.mp (List.mem_eraseDups.mp member)
        exact resolved_resolved (stable directory here)
      exact (own one oneListed).symm.trans (same.trans (own other otherListed))

/-- Two directories at the root, and a link to a third. -/
def linked : FileTree where
  root := .directory [
    (Octets.encode "opt".toList, .directory [(Octets.encode "man".toList, .directory [])]),
    (Octets.encode "alias".toList, .link (Octets.encode "/opt/man".toList)),
    (Octets.encode "usr".toList, .directory [])]

/-- A path with relative entries, repetitions, and an entry that is no directory. -/
def mixed : Text := "opt/man::/alias:usr:nowhere".toList

/-- The pattern of `mixed` that stands for two directories. -/
def both : Expander := .table [("usr".toList, ["/usr".toList, "alias".toList])]

/-- Four candidates fill a list of four, where two entries are left. -/
theorem ofPath_outcome_of_links :
    linked.currentPath? = some (Octets.encode "/".toList) ∧
      candidates linked both "/".toList (SearchPath.entries mixed) =
        ["/opt/man".toList, "/alias".toList, "/usr".toList, "/alias".toList] ∧
      ∃ list, (ofPath linked both 4 mixed).value = .ok list ∧
        list.directories = ["/opt/man".toList, "/usr".toList] ∧
        ∀ one ∈ list.directories, ∀ other ∈ list.directories,
          (linked.canonical? one).getD one = (linked.canonical? other).getD other →
            one = other := by
  have known : linked.currentPath? = some (Octets.encode "/".toList) := by decide
  have found : candidates linked both "/".toList (SearchPath.entries mixed) =
      ["/opt/man".toList, "/alias".toList, "/usr".toList, "/alias".toList] := by decide
  have outcome := ofPath_outcome linked both 4 mixed "/".toList known
  rw [found] at outcome
  obtain ⟨list, made, -, whole, -, -, -, -, apart⟩ := outcome.2 (by decide)
  refine ⟨known, found, list, made, ?_, apart ?_⟩
  · rw [whole]
    decide
  · change ∀ directory ∈ _, ∀ form ∈ linked.canonical? directory, linked.canonical? form = some form
    decide

end DirectoryList

end ManualPages
