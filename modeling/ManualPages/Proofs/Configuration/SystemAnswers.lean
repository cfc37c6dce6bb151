import ManualPages.Proofs.Configuration.Loading

/-! # Answers of the system-wide file

The questions put to the system-wide file alone look at its records and at no others.  The
per-user file, which is read first, adds records in front of them but none of their kind, so
whatever it holds and wherever it lies, these questions have the same answers.

* `Catalog.systemPart` — the records that are kept apart as those of the system-wide file.
* `first?_systemPart`, `cachePath?_systemPart`, `isGlobal_systemPart`, `keysAbout_systemPart` —
  the questions look at that part only.
* `systemPart_of_load` — after a load that part is what the system-wide file declares.
* `system_answers_eq` — two loads with the same system-wide file answer alike.
-/

namespace ManualPages

/-! ## Questions to a part -/

namespace Catalog

variable (catalog : Catalog)

/-- The records of subjects that are kept apart by file and come from the system-wide one. -/
def systemPart : Catalog := ⟨catalog.records.filter (·.subject.owner? = some .system)⟩

theorem first?_systemPart (key : Text) {subject : Subject}
    (system : subject.owner? = some .system) :
    catalog.systemPart.first? key subject = catalog.first? key subject := by
  simp only [first?, systemPart, List.find?_filter]
  congr 2
  funext record
  by_cases same : record.subject = subject <;> simp [Record.hasKey, same, system]

theorem recordsAbout_systemPart {subject : Subject} (system : subject.owner? = some .system) :
    catalog.systemPart.recordsAbout subject = catalog.recordsAbout subject := by
  simp only [recordsAbout, systemPart, List.filter_filter]
  congr 1
  funext record
  by_cases same : record.subject = subject <;> simp [same, system]

theorem isGlobal_systemPart (directory : Text) :
    catalog.systemPart.isGlobal directory = catalog.isGlobal directory := by
  rw [isGlobal, isGlobal, recordsAbout_systemPart catalog rfl]

theorem keysAbout_systemPart :
    catalog.systemPart.keysAbout (.cacheMap .system) = catalog.keysAbout (.cacheMap .system) := by
  simp only [keysAbout, effective]
  rw [recordsAbout_systemPart catalog rfl]

/-- The filter for the system-wide file lets only records of that file through. -/
theorem owner_of_includes {subject : Subject} (included : OwnerFilter.system.includes subject) :
    subject.owner? = some .system := by
  cases subject with
  | cacheMap owner => cases owner <;> simp_all [OwnerFilter.includes, Subject.owner?]
  | sections _ | definition _ | programMap | mandatory => simp [OwnerFilter.includes] at included

theorem serving?_systemPart (name : Text) :
    catalog.systemPart.serving? .system name = catalog.serving? .system name := by
  simp only [serving?, systemPart]
  induction catalog.records with
  | nil => rfl
  | cons record records ih =>
    -- a record that is let through is kept; one that is not may be kept, but answers nothing
    by_cases included : OwnerFilter.system.includes record.subject
    · simp [List.findSome?_cons, owner_of_includes included, ih]
    · by_cases kept : record.subject.owner? = some .system <;> simp [kept, included, ih]

theorem cachePath?_systemPart (name : Text) :
    catalog.systemPart.cachePath? name .system = catalog.cachePath? name .system := by
  rw [cachePath?, cachePath?, serving?_systemPart]

end Catalog

/-! ## What the per-user file adds -/

/-- A record of an entry that is kept apart by file comes from the file of the entry. -/
theorem Entry.owner_of_mem_records {entry : Entry} {record : Record}
    (member : record ∈ entry.records) :
    record.subject.owner? = none ∨ record.subject.owner? = some entry.owner := by
  obtain ⟨owner, declaration⟩ := entry
  cases declaration with
  | sections names =>
    obtain ⟨name, -, rfl⟩ := List.mem_map.mp member
    exact .inr rfl
  | noCache | width _ _ => simp [Entry.records] at member
  | mandatory _ | programMap _ _ | cacheMap _ _ | define _ _ =>
    simp only [Entry.records, List.mem_singleton] at member
    simp [member, Subject.owner?]

theorem userFile?_owner {tree : FileTree} {options : ConfigFiles} {env : Environment}
    {file : TextFile} (found : userFile? tree options env = some file) : file.source.owner = .user := by
  simp only [userFile?, Option.bind_eq_bind, Option.bind_eq_some_iff] at found
  obtain ⟨path, -, text, -, made⟩ := found
  cases made
  rfl

/-- No record of the per-user file is one of the system-wide file. -/
theorem userFile?_systemPart (tree : FileTree) (options : ConfigFiles) (env : Environment) :
    Catalog.systemPart
      ⟨((userFile? tree options env).toList.flatMap TextFile.entries).flatMap Entry.records⟩ = {} := by
  simp only [Catalog.systemPart, Catalog.mk.injEq, List.filter_eq_nil_iff, List.mem_flatMap,
    Option.mem_toList, decide_eq_true_eq]
  rintro record ⟨entry, ⟨file, found, read⟩, member⟩ system
  obtain ⟨declaration, -, rfl⟩ := List.mem_map.mp read
  obtain unowned | owned := Entry.owner_of_mem_records member
  · simp [unowned] at system
  · simp [owned, userFile?_owner found] at system

theorem systemPart_append (first second : List Record) :
    Catalog.systemPart ⟨first ++ second⟩ =
      ⟨(Catalog.systemPart ⟨first⟩).records ++ (Catalog.systemPart ⟨second⟩).records⟩ := by
  simp [Catalog.systemPart]

/-- After a load of a new configuration the system-wide part is what the system-wide file
    declares. -/
theorem systemPart_of_load (attempt : Attempt) (loads : (attempt.run .empty).failure? = none) :
    (attempt.run .empty).state.catalog.systemPart =
      Catalog.systemPart
        ⟨((systemFile? attempt.tree attempt.options attempt.env).toList.flatMap
          TextFile.entries).flatMap Entry.records⟩ := by
  rw [run_of_unloaded attempt rfl] at loads ⊢
  have whole : attempt.reading = ⟨_, _, none⟩ :=
    Reading.ofFiles_of_complete attempt.tree attempt.options attempt.env loads
  simp only [whole, Configuration.after, Configuration.empty, filesRead, List.nil_append,
    List.flatMap_append, systemPart_append, userFile?_systemPart]

/-! ## Two loads -/

/-- Two loads of new configurations that have the system-wide file in common answer every
    question to that file alike, whatever their per-user files are. -/
theorem system_answers_eq (first second : Attempt)
    (firstLoads : (first.run .empty).failure? = none)
    (secondLoads : (second.run .empty).failure? = none)
    (samePath : first.options.systemFile = second.options.systemFile)
    (sameSwitch : first.env.disableSystemFile = second.env.disableSystemFile)
    (sameText : first.tree.readText first.options.systemFile =
      second.tree.readText second.options.systemFile) :
    (∀ name, (first.run .empty).state.definition? name false =
      (second.run .empty).state.definition? name false) ∧
    (∀ name, (first.run .empty).state.catalog.cachePath? name .system =
      (second.run .empty).state.catalog.cachePath? name .system) ∧
    (∀ directory, (first.run .empty).state.catalog.isGlobal directory =
      (second.run .empty).state.catalog.isGlobal directory) ∧
    (first.run .empty).state.catalog.keysAbout (.cacheMap .system) =
      (second.run .empty).state.catalog.keysAbout (.cacheMap .system) := by
  have sameFile : systemFile? first.tree first.options first.env =
      systemFile? second.tree second.options second.env := by
    rw [systemFile?, systemFile?, sameText, samePath, sameSwitch]
  have samePart : (first.run .empty).state.catalog.systemPart =
      (second.run .empty).state.catalog.systemPart := by
    rw [systemPart_of_load first firstLoads, systemPart_of_load second secondLoads, sameFile]
  refine ⟨fun name => ?_, fun name => ?_, fun directory => ?_, ?_⟩
  · simp only [Configuration.definition?, Bool.false_eq_true, if_false]
    rw [← Catalog.first?_systemPart _ name rfl, samePart, Catalog.first?_systemPart _ name rfl]
  · rw [← Catalog.cachePath?_systemPart, samePart, Catalog.cachePath?_systemPart]
  · rw [← Catalog.isGlobal_systemPart, samePart, Catalog.isGlobal_systemPart]
  · rw [← Catalog.keysAbout_systemPart, samePart, Catalog.keysAbout_systemPart]

/-- A load whose per-user file maps more and defines the pager anew. -/
def withUserMaps : Attempt :=
  .ofTexts "MANDB_MAP /usr /mine\nDEFINE pager most\n"
    (some "MANDB_MAP /usr/man /var/cache\nDEFINE pager less\n")

/-- The same load with an empty per-user file. -/
def withoutUserMaps : Attempt :=
  .ofTexts "" (some "MANDB_MAP /usr/man /var/cache\nDEFINE pager less\n")

/-- The two differ where the per-user file counts, and answer alike where it does not. -/
theorem system_answers_eq_of_user_maps :
    (withUserMaps.run .empty).failure? = none ∧ (withoutUserMaps.run .empty).failure? = none ∧
      (withUserMaps.run .empty).state.definition? "pager".toList true ≠
        (withoutUserMaps.run .empty).state.definition? "pager".toList true ∧
      (∀ name, (withUserMaps.run .empty).state.definition? name false =
        (withoutUserMaps.run .empty).state.definition? name false) ∧
      (∀ name, (withUserMaps.run .empty).state.catalog.cachePath? name .system =
        (withoutUserMaps.run .empty).state.catalog.cachePath? name .system) ∧
      (∀ directory, (withUserMaps.run .empty).state.catalog.isGlobal directory =
        (withoutUserMaps.run .empty).state.catalog.isGlobal directory) ∧
      (withUserMaps.run .empty).state.catalog.keysAbout (.cacheMap .system) =
        (withoutUserMaps.run .empty).state.catalog.keysAbout (.cacheMap .system) :=
  ⟨by decide, by decide, by decide,
    system_answers_eq withUserMaps withoutUserMaps (by decide) (by decide) rfl rfl (by decide)⟩

end ManualPages
