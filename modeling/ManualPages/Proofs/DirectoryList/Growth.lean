import ManualPages.Proofs.DirectoryList.NewEntries

/-! # Lists that grow call by call

A list is only ever added to, by single entries and by the directories that a pattern stands for,
and calls go on after one that failed.  Both kinds of call come to the same: of what they offer the
list takes in as many as it has room for (`run_eq_takeIn`).  That one equation says what a call
keeps, and by induction over the calls what a run keeps.

* `takeIn`, `unlisted` — as many entries as there is room for, and the ones not listed yet.
* `addNewCandidates_value` — candidates that are offered one after the other are taken in at once.
* `Call`, `run_add`, `run_addNew` — what each kind of call does to a list.
* `after`, `size_after_le`, `nodup_after`, `added_by_call` — what calls leave, and what runs keep.
* `after_outcome` — what holds at every point of a run, and what the next call does there.
-/

namespace ManualPages

namespace DirectoryList

/-! ## Taking in -/

/-- Adds entries as long as there is room, and fails if there is not enough for all of them. -/
def takeIn (list : DirectoryList) (entries : List Text) : Outcome DirectoryList where
  state := { list with
    directories := list.directories ++ entries.take (list.limit - list.size) }
  failure? :=
    if entries.length ≤ list.limit - list.size then none else some (.tooManyDirectories list.limit)

/-- The first occurrences of the entries that are not listed. -/
def unlisted (list : DirectoryList) (entries : List Text) : List Text :=
  (entries.filter (· ∉ list.directories)).eraseDups

section TakeIn

variable {list : DirectoryList} {entry : Text}

@[simp] theorem takeIn_nil (list : DirectoryList) : list.takeIn [] = ⟨list, none⟩ := by
  simp [takeIn]

theorem takeIn_of_full (full : list.limit ≤ list.size) (entry : Text) (entries : List Text) :
    list.takeIn (entry :: entries) = ⟨list, some (.tooManyDirectories list.limit)⟩ := by
  simp [takeIn, Nat.sub_eq_zero_of_le full]

theorem takeIn_of_room (room : list.size < list.limit) (entry : Text) (entries : List Text) :
    list.takeIn (entry :: entries) =
      takeIn { list with directories := list.directories ++ [entry] } entries := by
  obtain ⟨places, rooms⟩ := Nat.exists_eq_add_of_lt room
  have before : list.limit - list.size = places + 1 := by omega
  have behind : list.limit - (list.size + 1) = places := by omega
  have longer : size { list with directories := list.directories ++ [entry] } = list.size + 1 :=
    List.length_append
  simp [takeIn, longer, before, behind]

theorem takeIn_singleton (list : DirectoryList) (entry : Text) :
    list.takeIn [entry] =
      match list.add entry with
      | .ok longer => ⟨longer, none⟩
      | .error failure => ⟨list, some failure⟩ := by
  unfold add
  by_cases room : list.size < list.limit
  · rw [takeIn_of_room room, takeIn_nil, if_pos room]
  · rw [takeIn_of_full (Nat.le_of_not_lt room), if_neg room]

theorem prefix_takeIn (list : DirectoryList) (entries : List Text) :
    list.directories <+: (list.takeIn entries).state.directories :=
  List.prefix_append _ _

theorem size_takeIn (list : DirectoryList) (entries : List Text) :
    (list.takeIn entries).state.size = list.size + min (list.limit - list.size) entries.length := by
  simp [takeIn, size]

theorem size_takeIn_le (fits : list.size ≤ list.limit) (entries : List Text) :
    (list.takeIn entries).state.size ≤ list.limit := by
  rw [size_takeIn]
  omega

theorem eq_of_takeIn_failure {entries : List Text} {failure : Failure}
    (failed : (list.takeIn entries).failure? = some failure) :
    failure = .tooManyDirectories list.limit ∧ list.limit - list.size < entries.length := by
  by_cases room : entries.length ≤ list.limit - list.size
  · simp [takeIn, room] at failed
  · simp only [takeIn, if_neg room, Option.some.injEq] at failed
    exact ⟨failed.symm, Nat.lt_of_not_le room⟩

theorem directories_takeIn_of_success {entries : List Text}
    (succeeded : (list.takeIn entries).failure? = none) :
    (list.takeIn entries).state.directories = list.directories ++ entries := by
  have room : entries.length ≤ list.limit - list.size := by
    by_contra short
    simp [takeIn, short] at succeeded
  simp [takeIn, List.take_of_length_le room]

theorem mem_unlisted {entries : List Text} :
    entry ∈ list.unlisted entries ↔ entry ∈ entries ∧ entry ∉ list.directories := by
  simp [unlisted]

theorem nodup_takeIn_unlisted (distinct : list.directories.Nodup) (entries : List Text) :
    (list.takeIn (list.unlisted entries)).state.directories.Nodup := by
  refine List.nodup_append.mpr ⟨distinct, ?_, fun directory listed other new same => ?_⟩
  · exact (List.take_sublist _ _).nodup (nodup_eraseDups _)
  · rw [← same] at new
    exact (mem_unlisted.mp (List.mem_of_mem_take new)).2 listed

theorem unlisted_cons_of_mem (listed : entry ∈ list.directories) (entries : List Text) :
    list.unlisted (entry :: entries) = list.unlisted entries := by
  simp [unlisted, listed]

theorem unlisted_cons_of_notMem (new : entry ∉ list.directories) (entries : List Text) :
    list.unlisted (entry :: entries) =
      entry :: unlisted { list with directories := list.directories ++ [entry] } entries := by
  rw [unlisted, List.filter_cons_of_pos (by simpa using new), List.eraseDups_cons,
    List.filter_filter, unlisted]
  congr 3
  funext other
  by_cases same : other = entry <;> simp [same]

end TakeIn

/-! ## Candidates -/

/-- Candidates that are offered one after the other: the directories among them that are not
    listed are taken in. -/
theorem addNewCandidates_value (tree : FileTree) (list : DirectoryList) (found : List Text) :
    (addNewCandidates tree list found).value =
      list.takeIn (list.unlisted (found.filter tree.isDirectory)) := by
  induction found generalizing list with
  | nil => simp [addNewCandidates, unlisted]
  | cons candidate rest ih =>
    rw [addNewCandidates_cons_value]
    by_cases kept : tree.isDirectory candidate
    · rw [List.filter_cons_of_pos kept]
      by_cases listed : candidate ∈ list.directories
      · rw [if_pos (by simp [contains, listed]), unlisted_cons_of_mem listed]
        exact ih list
      · rw [if_neg (by simp [contains, listed, kept]), unlisted_cons_of_notMem listed, add]
        -- a new directory is the first to be taken in, if there is room for one at all
        by_cases room : list.size < list.limit
        · rw [if_pos room, takeIn_of_room room]
          exact ih _
        · rw [if_neg room, takeIn_of_full (Nat.le_of_not_lt room)]
    · rw [List.filter_cons_of_neg kept, if_pos (by simp [kept])]
      exact ih list

/-! ## Calls -/

/-- A call that adds to a list.  Each looks at the tree as it is at that time, with an expander of
    its own. -/
inductive Call where
  | add (directory : Text)
  | addNew (tree : FileTree) (expander : Expander) (pattern : Text)

namespace Call

/-- What a call makes of a list, which stays as it is where a single entry cannot be added. -/
def run (list : DirectoryList) : Call → Outcome DirectoryList
  | .add directory =>
    match list.add directory with
    | .ok longer => ⟨longer, none⟩
    | .error failure => ⟨list, some failure⟩
  | .addNew tree expander pattern => (list.addNew tree expander pattern).value

def addsNew : Call → Bool
  | .add _ => false
  | .addNew .. => true

/-- The directories that a call adds to a list if there is room. -/
def offers (list : DirectoryList) : Call → List Text
  | .add directory => [directory]
  | .addNew tree expander pattern =>
    list.unlisted ((expander.expand tree pattern).value.filter tree.isDirectory)

end Call

/-- The list that calls leave, those that fail included. -/
def after (list : DirectoryList) (calls : List Call) : DirectoryList :=
  calls.foldl (fun list call => (call.run list).state) list

variable {limit : Nat} {list : DirectoryList}

theorem run_eq_takeIn (list : DirectoryList) (call : Call) :
    call.run list = list.takeIn (call.offers list) := by
  cases call with
  | add directory => exact (takeIn_singleton list directory).symm
  | addNew tree expander pattern => exact addNewCandidates_value tree list _

/-- A single entry is added, or else there was no room for it and nothing changes. -/
theorem run_add (fits : list.size ≤ list.limit) (directory : Text) :
    let outcome := (Call.add directory).run list
    (outcome.failure? = none → outcome.state.directories = list.directories ++ [directory]) ∧
    (outcome.failure? ≠ none → outcome.state = list ∧ list.size = list.limit) := by
  simp only [run_eq_takeIn]
  refine ⟨directories_takeIn_of_success, fun failed => ?_⟩
  obtain ⟨failure, failed⟩ := Option.ne_none_iff_exists'.mp failed
  have short : list.limit - list.size < 1 := (eq_of_takeIn_failure failed).2
  have full : list.limit ≤ list.size := by omega
  rw [Call.offers, takeIn_of_full full]
  exact ⟨rfl, Nat.le_antisymm fits full⟩

/-- The directories that a pattern stands for are all listed afterwards, or else the list is full. -/
theorem run_addNew (fits : list.size ≤ list.limit) (tree : FileTree) (expander : Expander)
    (pattern : Text) :
    let outcome := (Call.addNew tree expander pattern).run list
    (outcome.failure? = none → ∀ candidate ∈ (expander.expand tree pattern).value,
      tree.probe candidate = .directory → candidate ∈ outcome.state.directories) ∧
    (outcome.failure? ≠ none → outcome.state.size = list.limit) := by
  simp only [run_eq_takeIn]
  refine ⟨fun succeeded candidate found isDirectory => ?_, fun failed => ?_⟩
  · rw [directories_takeIn_of_success succeeded, List.mem_append, Call.offers, mem_unlisted,
      List.mem_filter]
    by_cases listed : candidate ∈ list.directories
    · exact .inl listed
    · exact .inr ⟨⟨found, by simp [FileTree.isDirectory, isDirectory]⟩, listed⟩
  · obtain ⟨failure, failed⟩ := Option.ne_none_iff_exists'.mp failed
    have short := (eq_of_takeIn_failure failed).2
    rw [size_takeIn]
    omega

/-! ## Runs -/

@[simp] theorem after_append (list : DirectoryList) (calls more : List Call) :
    list.after (calls ++ more) = (list.after calls).after more :=
  List.foldl_append

theorem after_concat (list : DirectoryList) (calls : List Call) (call : Call) :
    list.after (calls ++ [call]) = (call.run (list.after calls)).state := by
  rw [after_append]
  rfl

@[simp] theorem limit_after (list : DirectoryList) (calls : List Call) :
    (list.after calls).limit = list.limit := by
  induction calls using List.reverseRecOn with
  | nil => rfl
  | append_singleton calls call ih =>
    rw [after_concat, run_eq_takeIn, takeIn]
    exact ih

theorem size_after_le (fits : list.size ≤ list.limit) (calls : List Call) :
    (list.after calls).size ≤ list.limit := by
  induction calls using List.reverseRecOn with
  | nil => exact fits
  | append_singleton calls call ih =>
    rw [← limit_after list calls] at ih ⊢
    rw [after_concat, run_eq_takeIn]
    exact size_takeIn_le ih _

theorem nodup_after {calls : List Call} (onlyNew : ∀ call ∈ calls, call.addsNew) :
    ((withLimit limit).after calls).directories.Nodup := by
  induction calls using List.reverseRecOn with
  | nil => exact List.nodup_nil
  | append_singleton calls call ih =>
    have distinct := ih fun other member => onlyNew other (List.mem_append_left [call] member)
    have new := onlyNew call (by simp)
    cases call with
    | add directory => contradiction
    | addNew tree expander pattern =>
      rw [after_concat, run_eq_takeIn]
      exact nodup_takeIn_unlisted distinct _

/-- Every entry was new to the list at some call, which offered it. -/
theorem added_by_call {calls : List Call} {directory : Text}
    (listed : directory ∈ ((withLimit limit).after calls).directories) :
    ∃ earlier call later, calls = earlier ++ call :: later ∧
      directory ∉ ((withLimit limit).after earlier).directories ∧
      directory ∈ (call.run ((withLimit limit).after earlier)).state.directories ∧
      directory ∈ call.offers ((withLimit limit).after earlier) := by
  induction calls using List.reverseRecOn with
  | nil => simp [after, withLimit] at listed
  | append_singleton calls call ih =>
    by_cases before : directory ∈ ((withLimit limit).after calls).directories
    · obtain ⟨earlier, found, later, rfl, new, added, offered⟩ := ih before
      exact ⟨earlier, found, later ++ [call], by simp, new, added, offered⟩
    · rw [after_concat] at listed
      refine ⟨calls, call, [], rfl, before, listed, ?_⟩
      rw [run_eq_takeIn, takeIn, List.mem_append] at listed
      exact List.mem_of_mem_take (listed.resolve_left before)

/-! ## Every point of a run -/

/-- What calls leave of a list without entries, and what any call does next: entries stay and are
    never more than the limit lets in.  A single entry is added or else nothing changes; the
    directories of a pattern are all listed afterwards, or else the list is full.  Where all calls
    added only what was new, no entry repeats, and each one was a directory when it was added. -/
theorem after_outcome (limit : Nat) (calls : List Call) :
    let list := (withLimit limit).after calls
    list.size ≤ limit ∧
    (∀ call : Call,
      let outcome := call.run list
      list.directories <+: outcome.state.directories ∧ outcome.state.size ≤ limit ∧
      (∀ failure, outcome.failure? = some failure → failure = .tooManyDirectories limit) ∧
      match call with
      | .add directory =>
        (outcome.failure? = none → outcome.state.directories = list.directories ++ [directory]) ∧
        (outcome.failure? ≠ none → outcome.state = list ∧ list.size = limit)
      | .addNew tree expander pattern =>
        (outcome.failure? = none → ∀ candidate ∈ (expander.expand tree pattern).value,
          tree.probe candidate = .directory → candidate ∈ outcome.state.directories) ∧
        (outcome.failure? ≠ none → outcome.state.size = limit)) ∧
    ((∀ call ∈ calls, call.addsNew) →
      list.directories.Nodup ∧
      ∀ directory ∈ list.directories, ∃ earlier tree expander pattern later,
        calls = earlier ++ .addNew tree expander pattern :: later ∧
        directory ∉ ((withLimit limit).after earlier).directories ∧
        directory ∈ ((withLimit limit).after
          (earlier ++ [.addNew tree expander pattern])).directories ∧
        directory ∈ (expander.expand tree pattern).value ∧ tree.probe directory = .directory) := by
  intro list
  have limit_eq : list.limit = limit := limit_after _ calls
  have starts : (withLimit limit).size ≤ (withLimit limit).limit := Nat.zero_le limit
  have fits : list.size ≤ list.limit := by
    rw [limit_eq]
    exact size_after_le starts calls
  rw [← limit_eq]
  refine ⟨fits, fun call => ⟨?_, ?_, ?_, ?_⟩, fun onlyNew => ⟨?_, fun directory listed => ?_⟩⟩
  · rw [run_eq_takeIn]
    exact prefix_takeIn list _
  · rw [run_eq_takeIn]
    exact size_takeIn_le fits _
  · rw [run_eq_takeIn]
    exact fun failure failed => (eq_of_takeIn_failure failed).1
  · cases call with
    | add directory => exact run_add fits directory
    | addNew tree expander pattern => exact run_addNew fits tree expander pattern
  · exact nodup_after onlyNew
  · obtain ⟨earlier, call, later, rfl, new, added, offered⟩ := added_by_call listed
    have adding := onlyNew call (by simp)
    cases call with
    | add directory => contradiction
    | addNew tree expander pattern =>
      obtain ⟨found, isDirectory⟩ := List.mem_filter.mp (mem_unlisted.mp offered).1
      refine ⟨earlier, tree, expander, pattern, later, rfl, ?_, ?_, found, ?_⟩
      · rw [limit_eq]
        exact new
      · rw [limit_eq, after_concat]
        exact added
      · simpa [FileTree.isDirectory] using isDirectory

end DirectoryList

end ManualPages
