import ManualPages.Proofs.SearchPath.Appending

/-! # Search paths as they grow

What candidates come to that are appended one after the other, beginning with nothing.  The first one
that is not empty stays as it is written, with its repetitions and stray colons, and a later one is
sifted by what is listed before it but not by its own segments.  So a path may list an element more
than once; what holds at every point is that it lists an element as often as the first candidate
does that has it.

* `firstWith?`, `countInFirst`, `count_entries_appendAll` — how often an element is listed.
* `Continues`, `continues_appendAll` — what further calls leave as it is and what they put behind it.
* `appendAll_outcome` — the path at any point of a run, and what it becomes from there.
-/

namespace ManualPages

namespace SearchPath

/-! ## How often an element is listed -/

/-- The first of the candidates that has an element. -/
def firstWith? (candidates : List Text) (element : Text) : Option Text :=
  candidates.find? fun candidate => (entries candidate).contains element

/-- How often an element stands in the first of the candidates that has it. -/
def countInFirst (candidates : List Text) (element : Text) : Nat :=
  (firstWith? candidates element).elim 0 fun candidate => (entries candidate).count element

section CountInFirst

variable {candidates : List Text} {candidate element : Text}

theorem countInFirst_append_of_mem (member : candidate ∈ candidates)
    (inside : element ∈ entries candidate) (later : List Text) :
    countInFirst (candidates ++ later) element = countInFirst candidates element := by
  have found : (firstWith? candidates element).isSome :=
    List.find?_isSome.mpr ⟨candidate, member, by simpa using inside⟩
  rw [countInFirst, firstWith?, List.find?_append, ← firstWith?, Option.or_of_isSome found]
  rfl

theorem countInFirst_append_of_notMem (absent : ∀ earlier ∈ candidates, element ∉ entries earlier)
    (later : List Text) :
    countInFirst (candidates ++ later) element = countInFirst later element := by
  have nothing : firstWith? candidates element = none :=
    List.find?_eq_none.mpr fun earlier member => by simpa using absent earlier member
  rw [countInFirst, firstWith?, List.find?_append, ← firstWith?, nothing, Option.none_or]
  rfl

theorem countInFirst_singleton (candidate element : Text) :
    countInFirst [candidate] element = (entries candidate).count element := by
  by_cases inside : element ∈ entries candidate
  · simp [countInFirst, firstWith?, inside]
  · simp [countInFirst, firstWith?, inside, List.count_eq_zero_of_not_mem inside]

end CountInFirst

theorem count_entries_appendAll (candidates : List Text) (element : Text) :
    (entries (appendAll [] candidates)).count element = countInFirst candidates element := by
  induction candidates using List.reverseRecOn with
  | nil => rfl
  | append_singleton candidates candidate ih =>
    rw [appendAll_concat, entries_append, List.count_append]
    by_cases listed : element ∈ entries (appendAll [] candidates)
    · -- an earlier candidate has it, and this one does not list it once more
      obtain ⟨earlier, member, inside⟩ := mem_entries_appendAll.mp listed
      have sifted : element ∉ (entries candidate).filter (· ∉ entries (appendAll [] candidates)) :=
        fun kept => absurd listed (by simpa using List.of_mem_filter kept)
      rw [List.count_eq_zero_of_not_mem sifted, Nat.add_zero, ih,
        countInFirst_append_of_mem member inside]
    · -- if any candidate has it, then this one is the first, and it is not sifted
      have absent : ∀ earlier ∈ candidates, element ∉ entries earlier := fun earlier member inside =>
        listed (mem_entries_appendAll.mpr ⟨earlier, member, inside⟩)
      rw [List.count_eq_zero_of_not_mem listed, List.count_filter (by simpa using listed),
        countInFirst_append_of_notMem absent, countInFirst_singleton, Nat.zero_add]

/-! ## What was there before -/

/-- A path goes on as a longer one: all its segments stand there first, as they were, and those
    behind them are not empty and none of them.  Of an empty path nothing is asked. -/
def Continues (path longer : Text) : Prop :=
  path = [] ∨ ∃ added, segments longer = segments path ++ added ∧
    ∀ segment ∈ added, segment ≠ [] ∧ segment ∉ segments path

/-- One call more puts only what is fresh to the longer path behind it. -/
theorem Continues.append {path longer : Text} (continued : Continues path longer)
    (stays : path ≠ [] → longer ≠ []) (candidate : Text) :
    Continues path (append longer candidate) := by
  refine or_iff_not_imp_left.mpr fun nonempty => ?_
  obtain ⟨added, whole, new⟩ := continued.resolve_left nonempty
  refine ⟨added ++ fresh longer candidate, ?_, List.forall_mem_append.mpr ⟨new, ?_⟩⟩
  · rw [segments_append (stays nonempty), whole, List.append_assoc]
  · intro segment member
    obtain ⟨-, written, absent⟩ := mem_fresh.mp member
    rw [whole] at absent
    exact ⟨written, fun listed => absent (List.mem_append_left added listed)⟩

theorem continues_appendAll (path : Text) (candidates : List Text) :
    Continues path (appendAll path candidates) := by
  induction candidates using List.reverseRecOn with
  | nil => exact .inr ⟨[], by simp⟩
  | append_singleton candidates candidate ih =>
    rw [appendAll_concat]
    refine ih.append (fun nonempty nothing => ?_) candidate
    exact nonempty (appendAll_eq_nil_iff.mp nothing).1

/-! ## Every point of a run -/

/-- What candidates come to that are appended one after the other, beginning with nothing.  The path
    has the elements of all of them, each as often as the first candidate that has it, and it goes on
    under any further calls.  Of candidates without colons it is those that are not empty, each once,
    in the order of their first occurrences.  There is none only if all candidates are empty. -/
theorem appendAll_outcome (candidates : List Text) :
    let path := appendAll [] candidates
    (∀ element, element ∈ entries path ↔ ∃ candidate ∈ candidates, element ∈ entries candidate) ∧
    (∀ element, (entries path).count element = countInFirst candidates element) ∧
    (∀ further, Continues path (appendAll [] (candidates ++ further))) ∧
    ((∀ candidate ∈ candidates, ':' ∉ candidate) →
      path = join (candidates.filter (! ·.isEmpty)).eraseDups) ∧
    (nonEmpty? path = none ↔ ∀ candidate ∈ candidates, candidate = []) := by
  intro path
  refine ⟨fun element => mem_entries_appendAll, count_entries_appendAll candidates, fun further => ?_,
    appendAll_of_whole, ?_⟩
  · rw [appendAll_append]
    exact continues_appendAll path further
  · rw [nonEmpty?_eq_none_iff, appendAll_eq_nil_iff]
    simp

/-- What a later candidate has twice is listed twice and stays so; candidates without colons are
    listed once. -/
theorem appendAll_outcome_of_repetitions :
    let stray := ["".toList, "/a::/a".toList, ":/b:/a:/b".toList]
    let whole := ["".toList, "/b".toList, "/a".toList, "/b".toList]
    (entries (appendAll [] stray)).count "/b".toList = 2 ∧
      Continues (appendAll [] stray) (appendAll [] (stray ++ whole)) ∧
      (∀ candidate ∈ whole, ':' ∉ candidate) ∧ appendAll [] whole = "/b:/a".toList ∧
      nonEmpty? (appendAll [] whole) ≠ none := by
  intro stray whole
  have noColons : ∀ candidate ∈ whole, ':' ∉ candidate := by decide
  refine ⟨?_, (appendAll_outcome stray).2.2.1 whole, noColons, ?_, ?_⟩
  · rw [(appendAll_outcome stray).2.1]
    decide
  · rw [(appendAll_outcome whole).2.2.2.1 noColons]
    decide
  · rw [Ne, (appendAll_outcome whole).2.2.2.2]
    decide

end SearchPath

end ManualPages
