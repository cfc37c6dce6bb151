import ManualPages.Catalog.Basic
import ManualPages.Proofs.FirstOccurrences

/-! # The keys of a subject

What counts for a question about sections or definitions is the per-user file, if it says anything
about them, and else the system-wide file; every other subject counts for itself.  The answer is the
keys of the subject that counts, each at its first record.  A record that is added can only put its
key at the end of the answer, except for the one by which the per-user file takes over.

* `StandsIn`, `Counts`, `counts_iff` — the subject that counts, told apart from the search for it.
* `keysOf`, `mem_keysOf`, `pairwise_findIdx_keysOf` — the keys of one subject, in the order of their
  first records in the catalog.
* `keysOf_add` — what one record more adds to them.
* `TakesOver`, `Counts.add` — the record after which another subject counts, and the only one.
* `keysAbout_outcome` — the answer, and what becomes of it with one record more.
-/

namespace ManualPages

namespace Catalog

variable {catalog : Catalog} {subject added counted : Subject} {key content : Text}

/-! ## The subject that counts -/

/-- The kinds of subjects for which the per-user file, once it says anything, stands in for the
    system-wide file. -/
inductive StandsIn : (Owner → Subject) → Prop
  | sections : StandsIn .sections
  | definition : StandsIn .definition

/-- The subject that counts for a question about another one. -/
inductive Counts (catalog : Catalog) : Subject → Subject → Prop
  | ofUser {kind : Owner → Subject} (paired : StandsIn kind)
      (declared : ∃ record ∈ catalog.records, record.subject = kind .user) (asked : Owner) :
      Counts catalog (kind asked) (kind .user)
  | ofSystem {kind : Owner → Subject} (paired : StandsIn kind)
      (silent : ∀ record ∈ catalog.records, record.subject ≠ kind .user) (asked : Owner) :
      Counts catalog (kind asked) (kind .system)
  | cacheMap (owner : Owner) : Counts catalog (.cacheMap owner) (.cacheMap owner)
  | programMap : Counts catalog .programMap .programMap
  | mandatory : Counts catalog .mandatory .mandatory

theorem recordsAbout_eq_nil_iff :
    catalog.recordsAbout subject = [] ↔ ∀ record ∈ catalog.records, record.subject ≠ subject := by
  simp [recordsAbout]

theorem effective_of_standsIn {kind : Owner → Subject} (paired : StandsIn kind) (asked : Owner) :
    catalog.effective (kind asked) =
      if catalog.recordsAbout (kind .user) = [] then kind .system else kind .user := by
  cases paired <;> simp [effective]

theorem Counts.effective_eq (counts : catalog.Counts subject counted) :
    catalog.effective subject = counted := by
  cases counts with
  | ofUser paired declared asked =>
    obtain ⟨record, member, same⟩ := declared
    rw [effective_of_standsIn paired, if_neg]
    exact fun silent => recordsAbout_eq_nil_iff.mp silent record member same
  | ofSystem paired silent asked =>
    rw [effective_of_standsIn paired, if_pos (recordsAbout_eq_nil_iff.mpr silent)]
  | cacheMap => rfl
  | programMap => rfl
  | mandatory => rfl

theorem exists_counts_of_standsIn {kind : Owner → Subject} (paired : StandsIn kind) (asked : Owner) :
    ∃ counted, catalog.Counts (kind asked) counted := by
  by_cases declared : ∃ record ∈ catalog.records, record.subject = kind .user
  · exact ⟨_, .ofUser paired declared asked⟩
  · push Not at declared
    exact ⟨_, .ofSystem paired declared asked⟩

theorem exists_counts (catalog : Catalog) (subject : Subject) :
    ∃ counted, catalog.Counts subject counted := by
  cases subject with
  | sections owner => exact exists_counts_of_standsIn .sections owner
  | definition owner => exact exists_counts_of_standsIn .definition owner
  | cacheMap owner => exact ⟨_, .cacheMap owner⟩
  | programMap => exact ⟨_, .programMap⟩
  | mandatory => exact ⟨_, .mandatory⟩

theorem counts_iff : catalog.Counts subject counted ↔ catalog.effective subject = counted := by
  constructor
  · exact Counts.effective_eq
  · rintro rfl
    obtain ⟨counted, counts⟩ := exists_counts catalog subject
    rw [counts.effective_eq]
    exact counts

instance : Decidable (catalog.Counts subject counted) := decidable_of_iff _ counts_iff.symm

/-! ## Keys at their first records -/

/-- Of two elements of a list, the one that comes first among those that pass a test comes first
    among all. -/
theorem findIdx_lt_of_filter {α : Type} {among first second : α → Bool} {xs : List α}
    (before : (xs.filter among).findIdx first < (xs.filter among).findIdx second) :
    (xs.findIdx fun x => among x && first x) < xs.findIdx fun x => among x && second x := by
  induction xs with
  | nil => exact before
  | cons x xs ih =>
    cases passes : among x with
    | false =>
      -- neither of the two is `x`, so both indices grow by one
      simpa [passes, List.findIdx_cons] using ih (by simpa [passes] using before)
    | true =>
      cases isSecond : second x with
      | true => simp [passes, isSecond, List.findIdx_cons] at before
      | false =>
        cases isFirst : first x with
        | true => simp [passes, isFirst, isSecond, List.findIdx_cons]
        | false =>
          simpa [passes, isFirst, isSecond, List.findIdx_cons] using
            ih (by simpa [passes, isFirst, isSecond, List.findIdx_cons] using before)

/-- The keys of the records of one subject, each once. -/
def keysOf (catalog : Catalog) (subject : Subject) : List Text :=
  ((catalog.recordsAbout subject).map (·.key)).eraseDups

theorem keysAbout_of_counts (counts : catalog.Counts subject counted) :
    catalog.keysAbout subject = catalog.keysOf counted := by
  rw [keysAbout, counts.effective_eq, keysOf]

theorem nodup_keysOf (catalog : Catalog) (subject : Subject) : (catalog.keysOf subject).Nodup :=
  nodup_eraseDups _

theorem mem_keysOf :
    key ∈ catalog.keysOf subject ↔
      ∃ record ∈ catalog.records, record.subject = subject ∧ record.key = key := by
  simp [keysOf, recordsAbout, and_assoc]

theorem pairwise_findIdx_keysOf (catalog : Catalog) (subject : Subject) :
    (catalog.keysOf subject).Pairwise fun a b =>
      catalog.records.findIdx (·.hasKey a subject) < catalog.records.findIdx (·.hasKey b subject) := by
  refine (eraseDups_pairwise_idxOf _).imp fun {a b} before => ?_
  simp only [List.idxOf, List.findIdx_map, Function.comp_def, beq_eq_decide] at before
  exact findIdx_lt_of_filter before

/-! ## One record more -/

theorem recordsAbout_add (catalog : Catalog) (key content : Text) (added subject : Subject) :
    (catalog.add key content added).recordsAbout subject =
      catalog.recordsAbout subject ++ if added = subject then [⟨key, content, added⟩] else [] := by
  by_cases same : added = subject <;> simp [recordsAbout, add, same]

theorem keysOf_add (catalog : Catalog) (key content : Text) (added subject : Subject) :
    (catalog.add key content added).keysOf subject =
      if added = subject ∧ key ∉ catalog.keysOf subject then catalog.keysOf subject ++ [key]
      else catalog.keysOf subject := by
  rw [keysOf, recordsAbout_add]
  by_cases same : added = subject
  · rw [if_pos same, List.map_append, List.map_cons, List.map_nil, eraseDups_concat]
    by_cases listed : key ∈ (catalog.recordsAbout subject).map (·.key)
    · rw [if_pos listed, if_neg (by simp [keysOf, listed])]
      rfl
    · rw [if_neg listed, if_pos (by simp [keysOf, listed, same])]
      rfl
  · rw [if_neg same, List.append_nil, if_neg (fun both => same both.1)]
    rfl

/-- A record of a subject is the first of the per-user file that counts for a question, so that
    what counted before does not any more. -/
def TakesOver (catalog : Catalog) (added subject : Subject) : Prop :=
  ∃ kind asked, StandsIn kind ∧ added = kind .user ∧ subject = kind asked ∧
    ∀ record ∈ catalog.records, record.subject ≠ kind .user

theorem declared_add_iff :
    (∃ record ∈ (catalog.add key content added).records, record.subject = subject) ↔
      (∃ record ∈ catalog.records, record.subject = subject) ∨ added = subject := by
  simp [add, or_and_right, exists_or]

/-- Another subject counts only after the record by which the per-user file takes over. -/
theorem Counts.add (counts : catalog.Counts subject counted) (stays : ¬ catalog.TakesOver added subject)
    (key content : Text) : (catalog.add key content added).Counts subject counted := by
  cases counts with
  | ofUser paired declared asked =>
    exact .ofUser paired (declared_add_iff.mpr (.inl declared)) asked
  | @ofSystem kind paired silent asked =>
    -- a record of the per-user file could only be the one that is added, and that does not take over
    refine .ofSystem paired (fun record member same => ?_) asked
    obtain ⟨earlier, found, isUser⟩ | isUser := declared_add_iff.mp ⟨record, member, same⟩
    · exact silent earlier found isUser
    · exact stays ⟨kind, asked, paired, isUser, rfl, silent⟩
  | cacheMap owner => exact .cacheMap owner
  | programMap => exact .programMap
  | mandatory => exact .mandatory

theorem keysAbout_add_of_takesOver (first : catalog.TakesOver added subject) (key content : Text) :
    (catalog.add key content added).keysAbout subject = [key] := by
  obtain ⟨kind, asked, paired, rfl, rfl, silent⟩ := first
  have counts : (catalog.add key content (kind .user)).Counts (kind asked) (kind .user) :=
    .ofUser paired (declared_add_iff.mpr (.inr rfl)) asked
  have noKeys : catalog.keysOf (kind .user) = [] := by
    rw [keysOf, recordsAbout_eq_nil_iff.mpr silent]
    rfl
  rw [keysAbout_of_counts counts, keysOf_add, noKeys]
  simp

/-- The answer to a question about a subject is the keys of the subject that counts, without
    repetition and in the order of their first records; for sections and definitions it is the same
    whichever file the question names.  One record more replaces the answer by its key if it is the
    first by which the per-user file takes over.  Any other record puts its key at the end if its
    subject counts and the key is new, and changes nothing otherwise. -/
theorem keysAbout_outcome (catalog : Catalog) (subject : Subject) :
    (∃ counted, catalog.Counts subject counted ∧
      (∀ other, catalog.Counts subject other → other = counted) ∧
      (catalog.keysAbout subject).Nodup ∧
      (∀ key, key ∈ catalog.keysAbout subject ↔
        ∃ record ∈ catalog.records, record.subject = counted ∧ record.key = key) ∧
      (catalog.keysAbout subject).Pairwise fun a b =>
        catalog.records.findIdx (·.hasKey a counted) <
          catalog.records.findIdx (·.hasKey b counted)) ∧
    (∀ kind, StandsIn kind → catalog.keysAbout (kind .user) = catalog.keysAbout (kind .system)) ∧
    ∀ key content added,
      let answer := (catalog.add key content added).keysAbout subject
      (catalog.TakesOver added subject → answer = [key]) ∧
      (¬ catalog.TakesOver added subject →
        (catalog.Counts subject added → key ∉ catalog.keysAbout subject →
          answer = catalog.keysAbout subject ++ [key]) ∧
        (¬ catalog.Counts subject added ∨ key ∈ catalog.keysAbout subject →
          answer = catalog.keysAbout subject)) := by
  obtain ⟨counted, counts⟩ := exists_counts catalog subject
  have keys : catalog.keysAbout subject = catalog.keysOf counted := keysAbout_of_counts counts
  have only {other : Subject} (counts' : catalog.Counts subject other) : other = counted :=
    counts'.effective_eq.symm.trans counts.effective_eq
  refine ⟨⟨counted, counts, fun _ => only, ?_, fun key => ?_, ?_⟩, fun kind paired => ?_, ?_⟩
  · rw [keys]
    exact nodup_keysOf catalog counted
  · rw [keys]
    exact mem_keysOf
  · rw [keys]
    exact pairwise_findIdx_keysOf catalog counted
  · rw [keysAbout, keysAbout, effective_of_standsIn paired, effective_of_standsIn paired]
  · intro key content added answer
    refine ⟨fun first => keysAbout_add_of_takesOver first key content, fun stays => ?_⟩
    have grown : answer = _ :=
      (keysAbout_of_counts (counts.add stays key content)).trans
        (keysOf_add catalog key content added counted)
    rw [grown, keys]
    constructor
    · intro ofCounted new
      exact if_pos ⟨only ofCounted, new⟩
    · intro other
      refine if_neg fun both => ?_
      obtain foreign | listed := other
      · exact foreign (both.1 ▸ counts)
      · exact both.2 listed

/-- Sections of the system-wide file only. -/
def systemSections : Catalog :=
  ⟨["8", "1", "8"].map fun name => ⟨name.toList, [], .sections .system⟩⟩

/-- The first section of the per-user file replaces them all, and another one of the system-wide file
    is put at their end unless it is one of them. -/
theorem keysAbout_outcome_of_first_user_section :
    let listed := ["8".toList, "1".toList]
    systemSections.TakesOver (.sections .user) (.sections .system) ∧
      systemSections.Counts (.sections .user) (.sections .system) ∧
      systemSections.keysAbout (.sections .user) = listed ∧
      (systemSections.add "3".toList [] (.sections .user)).keysAbout (.sections .system) =
        ["3".toList] ∧
      (systemSections.add "3".toList [] (.sections .system)).keysAbout (.sections .user) =
        listed ++ ["3".toList] ∧
      (systemSections.add "1".toList [] (.sections .system)).keysAbout (.sections .user) = listed := by
  intro listed
  have first : systemSections.TakesOver (.sections .user) (.sections .system) :=
    ⟨.sections, .system, .sections, rfl, rfl, by decide⟩
  have stays : ¬ systemSections.TakesOver (.sections .system) (.sections .user) := by
    rintro ⟨kind, asked, paired, same, -, -⟩
    cases paired <;> contradiction
  have counts : systemSections.Counts (.sections .user) (.sections .system) := by decide
  have keys : systemSections.keysAbout (.sections .user) = listed := by decide
  obtain ⟨-, -, ofSystem⟩ := keysAbout_outcome systemSections (.sections .system)
  obtain ⟨-, -, ofUser⟩ := keysAbout_outcome systemSections (.sections .user)
  refine ⟨first, counts, keys, ?_, ?_, ?_⟩
  · exact (ofSystem "3".toList [] (.sections .user)).1 first
  · rw [((ofUser "3".toList [] (.sections .system)).2 stays).1 counts (by decide), keys]
  · rw [((ofUser "1".toList [] (.sections .system)).2 stays).2 (.inr (by decide)), keys]

end Catalog

end ManualPages
