import ManualPages.Proofs.DirectoryList.FinalList

/-! # Adding directories that are not listed yet

A list that takes in only new directories holds at any time the directories that it was offered
so far, each at its first occurrence.  `distinct` is that list for a limit; it says when the
limit is passed, whatever the directories were offered for and in how many steps.

* `distinct` — directories at their first occurrences, if the limit lets in all of them.
* `distinct_of_mem`, `add_eq_distinct` — a directory that was offered before, and a new one.
* `addNewCandidates_cons_value`, `addNewCandidates_result` — candidates that are offered one after
  the other.
-/

namespace ManualPages

/-- The state that a step leaves behind, unless it failed. -/
def Outcome.result {σ : Type} (outcome : Outcome σ) : Except Failure σ :=
  match outcome.failure? with
  | some failure => .error failure
  | none => .ok outcome.state

namespace DirectoryList

def distinct (limit : Nat) (directories : List Text) : Except Failure DirectoryList :=
  if directories.eraseDups.length ≤ limit then .ok ⟨directories.eraseDups, limit⟩
  else .error (.tooManyDirectories limit)

variable {limit : Nat} {directories : List Text} {list : DirectoryList}

theorem eq_of_distinct (listed : distinct limit directories = .ok list) :
    list = ⟨directories.eraseDups, limit⟩ := by
  unfold distinct at listed
  split at listed
  · cases listed
    rfl
  · contradiction

theorem distinct_append_of_error {failure : Failure}
    (failed : distinct limit directories = .error failure) (more : List Text) :
    distinct limit (directories ++ more) = .error failure := by
  unfold distinct at failed ⊢
  split at failed
  · contradiction
  next full =>
    -- first occurrences stay, so what is too long already only gets longer
    have longer := (eraseDups_prefix_append directories more).length_le
    rw [if_neg (by omega)]
    exact failed

theorem distinct_of_mem {directory : Text} (offered : directory ∈ directories) (more : List Text) :
    distinct limit (directories ++ directory :: more) = distinct limit (directories ++ more) := by
  have same : (directories ++ directory :: more).eraseDups = (directories ++ more).eraseDups := by
    simp [List.eraseDups_append, List.removeAll, offered]
  rw [distinct, distinct, same]

theorem add_eq_distinct {directory : Text} (listed : distinct limit directories = .ok list)
    (new : directory ∉ directories) :
    list.add directory = distinct limit (directories ++ [directory]) := by
  obtain rfl := eq_of_distinct listed
  rw [distinct, eraseDups_concat, if_neg new, List.length_append, add]
  rfl

theorem join_of_distinct (limit : Nat) (directories : List Text) :
    (match distinct limit directories with
      | .ok list => .ok list.join
      | .error failure => .error failure) =
    if directories.eraseDups.length ≤ limit then .ok (SearchPath.join directories.eraseDups)
    else (.error (.tooManyDirectories limit) : Except Failure Text) := by
  unfold distinct
  by_cases room : directories.eraseDups.length ≤ limit <;> simp [room, join]

variable (tree : FileTree)

/-- What the first of several candidates does: nothing, unless it is a directory that is not listed. -/
theorem addNewCandidates_cons_value (list : DirectoryList) (candidate : Text) (rest : List Text) :
    (addNewCandidates tree list (candidate :: rest)).value =
      if list.contains candidate || ! tree.isDirectory candidate then
        (addNewCandidates tree list rest).value
      else
        match list.add candidate with
        | .ok longer => (addNewCandidates tree longer rest).value
        | .error failure => ⟨list, some failure⟩ := by
  rw [addNewCandidates, FileTree.isDirectory]
  cases list.contains candidate with
  | true => rfl
  | false =>
    cases tree.probe candidate with
    | directory => cases list.add candidate <;> rfl
    | notDirectory => rfl
    | unreadable cause => rfl

theorem addNewCandidates_cons (list : DirectoryList) (candidate : Text) (rest : List Text) :
    (addNewCandidates tree list (candidate :: rest)).value.result =
      if list.contains candidate || ! tree.isDirectory candidate then
        (addNewCandidates tree list rest).value.result
      else
        match list.add candidate with
        | .ok longer => (addNewCandidates tree longer rest).value.result
        | .error failure => .error failure := by
  rw [addNewCandidates_cons_value]
  split
  · rfl
  · cases list.add candidate <;> rfl

/-- A list of the directories offered so far goes on with those among the candidates. -/
theorem addNewCandidates_result (found : List Text)
    (listed : distinct limit directories = .ok list) :
    (addNewCandidates tree list found).value.result =
      distinct limit (directories ++ found.filter tree.isDirectory) := by
  -- the invariant is `listed`: it turns the question whether the list contains a candidate into
  -- the question whether the candidate has been offered
  induction found generalizing directories list with
  | nil => simp [addNewCandidates, Outcome.result, listed]
  | cons candidate rest ih =>
    have contains_eq : list.contains candidate = decide (candidate ∈ directories) := by
      simp [eq_of_distinct listed, contains]
    rw [addNewCandidates_cons, contains_eq]
    by_cases kept : tree.isDirectory candidate
    · rw [List.filter_cons_of_pos kept]
      by_cases offered : candidate ∈ directories
      · rw [if_pos (by simp [offered]), distinct_of_mem offered]
        exact ih listed
      · rw [if_neg (by simp [offered, kept]), List.append_cons, add_eq_distinct listed offered]
        cases longer : distinct limit (directories ++ [candidate]) with
        | ok next => exact ih longer
        | error failure => exact (distinct_append_of_error longer _).symm
    · rw [List.filter_cons_of_neg kept, if_pos (by simp [kept])]
      exact ih listed

end DirectoryList

end ManualPages
