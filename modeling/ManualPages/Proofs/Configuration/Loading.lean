import ManualPages.Proofs.Configuration.Reading

/-! # Loading from nothing

What a load on a new configuration answers, told by the two files alone: which of the causes
ends it, and what the configuration holds if none does.

* `userFile?`, `systemFile?`, `filesRead` — the files that can be read, with their texts.
* `LoadFails` — the causes that end a load, in their order of precedence.
* `ofFiles_failure_iff`, `ofFiles_of_complete` — the reading of both files by these terms.
* `load_empty_outcome` — the answer of a load on a new configuration.
* `Attempt` — a load as a value, for statements about several of them.
-/

namespace ManualPages

/-! ## The files -/

/-- A file with its text. -/
structure TextFile where
  source : Source
  text : Text
  deriving DecidableEq, Repr

section Files

variable (tree : FileTree) (options : ConfigFiles) (env : Environment)

/-- The per-user file, which is the one asked for or else the one in the home directory, with
    its text.  There is none if it cannot be read. -/
def userFile? : Option TextFile := do
  let path ← options.userFile.or (env.home.map (·.join (Octets.encode ".manpath".toList)))
  let text ← (tree.readText path).toOption
  return ⟨⟨path, .user⟩, text⟩

/-- The system-wide file with its text.  There is none if it is left out or cannot be read. -/
def systemFile? : Option TextFile :=
  if env.disableSystemFile then none
  else (tree.readText options.systemFile).toOption.map (⟨⟨options.systemFile, .system⟩, ·⟩)

/-- The files that can be read, the per-user file first. -/
def filesRead : List TextFile :=
  (userFile? tree options env).toList ++ (systemFile? tree options env).toList

def UserFileSound : Prop :=
  ∀ file, userFile? tree options env = some file → ∀ line ∈ file.text.lines, Understood line

/-- The causes that end a load.  The per-user file comes first; the system-wide file is not
    looked at unless the per-user file is sound. -/
inductive LoadFails : Failure → Prop
  | userLine {file : TextFile} {number : Nat} {fault : DeclarationError} :
      userFile? tree options env = some file →
      FirstFault file.text.lines number fault →
      LoadFails (.lineNotUnderstood file.source.path number fault.message)
  | systemUnreadable {cause : ReadError} :
      UserFileSound tree options env →
      env.disableSystemFile = false →
      options.systemOptional = false →
      tree.readText options.systemFile = .error cause →
      LoadFails (.fileUnreadable options.systemFile cause.message)
  | systemLine {file : TextFile} {number : Nat} {fault : DeclarationError} :
      UserFileSound tree options env →
      systemFile? tree options env = some file →
      FirstFault file.text.lines number fault →
      LoadFails (.lineNotUnderstood file.source.path number fault.message)

end Files

def TextFile.entries (file : TextFile) : List Entry :=
  (declarationsOf file.text.lines).map (⟨file.source.owner, ·⟩)

/-! ## The reading of a file -/

namespace Reading

theorem ofText_failure_iff (owner : Owner) (path : Octets) (text : Text) (failure : Failure) :
    (ofText owner path text).failure? = some failure ↔
      ∃ number fault, FirstFault text.lines number fault ∧
        failure = .lineNotUnderstood path number fault.message := by
  simp only [ofText]
  cases found : firstFault? text.lines with
  | none =>
    have sound := (firstFault?_eq_none_iff _).mp found
    simp only [reduceCtorEq, false_iff, not_exists, not_and]
    -- the line at fault would be among the sound ones
    rintro number fault ⟨before, line, rest, split, -, -, error⟩ -
    have understood := sound line (by simp [split])
    exact not_understood_of_error error understood
  | some fault =>
    have first := (firstFault?_eq_some_iff _ _ _).mp found
    constructor
    · intro ended
      exact ⟨_, _, first, (by simpa using ended.symm)⟩
    · rintro ⟨number, fault, ⟨before, line, rest, split, rfl, sound, error⟩, rfl⟩
      have same := (firstFault?_eq_some_iff text.lines before.length fault).mpr
        ⟨before, line, rest, split, rfl, sound, error⟩
      rw [found] at same
      cases same
      rfl

theorem ofText_sound_iff (owner : Owner) (path : Octets) (text : Text) :
    (ofText owner path text).failure? = none ↔ ∀ line ∈ text.lines, Understood line := by
  rw [← firstFault?_eq_none_iff]
  simp only [ofText]
  cases firstFault? text.lines <;> simp

theorem ofText_of_sound {file : TextFile} (sound : ∀ line ∈ file.text.lines, Understood line) :
    ofText file.source.owner file.source.path file.text = ⟨file.entries, [file.source], none⟩ := by
  simp only [ofText, (firstFault?_eq_none_iff _).mpr sound, takeWhile_understood sound,
    TextFile.entries]

variable (tree : FileTree) (options : ConfigFiles) (env : Environment)

theorem ofUser_eq :
    ofUser tree options env =
      match userFile? tree options env with
      | none => {}
      | some file => ofText file.source.owner file.source.path file.text := by
  have path_eq : Configuration.userPath? options env =
      options.userFile.or (env.home.map (·.join (Octets.encode ".manpath".toList))) := rfl
  simp only [ofUser, userFile?, path_eq]
  cases options.userFile.or (env.home.map (·.join (Octets.encode ".manpath".toList))) with
  | none => rfl
  | some path => cases read : tree.readText path <;> simp [read, Except.toOption]

theorem ofUser_failure_iff (failure : Failure) :
    (ofUser tree options env).failure? = some failure ↔
      ∃ file number fault, userFile? tree options env = some file ∧
        FirstFault file.text.lines number fault ∧
        failure = .lineNotUnderstood file.source.path number fault.message := by
  rw [ofUser_eq]
  cases userFile? tree options env with
  | none => simp
  | some file => simp [ofText_failure_iff]

theorem ofUser_complete_iff :
    (ofUser tree options env).failure? = none ↔ UserFileSound tree options env := by
  rw [ofUser_eq, UserFileSound]
  cases userFile? tree options env with
  | none => simp
  | some file => simp [ofText_sound_iff]

theorem ofUser_of_complete (complete : (ofUser tree options env).failure? = none) :
    ofUser tree options env =
      ⟨(userFile? tree options env).toList.flatMap TextFile.entries,
        (userFile? tree options env).toList.map (·.source), none⟩ := by
  have sound := (ofUser_complete_iff tree options env).mp complete
  rw [ofUser_eq]
  cases found : userFile? tree options env with
  | none => rfl
  | some file => simp [ofText_of_sound (sound file found)]

theorem ofSystem_eq :
    ofSystem tree options env =
      match systemFile? tree options env with
      | some file => ofText file.source.owner file.source.path file.text
      | none =>
        match tree.readText options.systemFile with
        | .error cause =>
          if env.disableSystemFile || options.systemOptional then {}
          else { failure? := some (.fileUnreadable options.systemFile cause.message) }
        | .ok _ => {} := by
  simp only [ofSystem, systemFile?]
  cases env.disableSystemFile with
  | true => cases tree.readText options.systemFile <;> simp
  | false => cases tree.readText options.systemFile <;> simp [Except.toOption]

theorem ofSystem_failure_iff (failure : Failure) :
    (ofSystem tree options env).failure? = some failure ↔
      (∃ cause, env.disableSystemFile = false ∧ options.systemOptional = false ∧
        tree.readText options.systemFile = .error cause ∧
        failure = .fileUnreadable options.systemFile cause.message) ∨
      ∃ file number fault, systemFile? tree options env = some file ∧
        FirstFault file.text.lines number fault ∧
        failure = .lineNotUnderstood file.source.path number fault.message := by
  rw [ofSystem_eq]
  cases found : systemFile? tree options env with
  | some file =>
    -- a file that has been found is one that can be read
    have readable (cause : ReadError) : tree.readText options.systemFile ≠ .error cause := by
      intro read
      simp [systemFile?, read, Except.toOption] at found
    simp [ofText_failure_iff, readable]
  | none =>
    cases read : tree.readText options.systemFile with
    | ok text => simp
    | error cause =>
      cases env.disableSystemFile <;> cases options.systemOptional <;> simp [eq_comm]

theorem ofSystem_of_complete (complete : (ofSystem tree options env).failure? = none) :
    ofSystem tree options env =
      ⟨(systemFile? tree options env).toList.flatMap TextFile.entries,
        (systemFile? tree options env).toList.map (·.source), none⟩ := by
  rw [ofSystem_eq] at complete ⊢
  cases found : systemFile? tree options env with
  | some file =>
    simp only [found, ofText_sound_iff] at complete
    simp [ofText_of_sound complete]
  | none =>
    cases read : tree.readText options.systemFile with
    | ok text => simp
    | error cause =>
      have skipped : (env.disableSystemFile || options.systemOptional) = true := by
        by_contra kept
        simp [found, read, kept] at complete
      simp [skipped]

/-! ## The reading of both files -/

/-- A reading of both files ends early for one of the causes, and for no other. -/
theorem ofFiles_failure_iff (failure : Failure) :
    (ofFiles tree options env).failure? = some failure ↔ LoadFails tree options env failure := by
  constructor
  · intro ended
    -- the per-user file decides, unless it is sound
    cases user : (ofUser tree options env).failure? with
    | some found =>
      obtain rfl : found = failure := by simpa [ofFiles, andThen, user] using ended
      obtain ⟨file, number, fault, found, first, rfl⟩ :=
        (ofUser_failure_iff tree options env _).mp user
      exact .userLine found first
    | none =>
      have sound := (ofUser_complete_iff tree options env).mp user
      have system : (ofSystem tree options env).failure? = some failure := by
        simpa [ofFiles, andThen, user] using ended
      obtain ⟨cause, enabled, required, read, rfl⟩ | ⟨file, number, fault, found, first, rfl⟩ :=
        (ofSystem_failure_iff tree options env failure).mp system
      · exact .systemUnreadable sound enabled required read
      · exact .systemLine sound found first
  · intro fails
    cases fails with
    | userLine found first =>
      have user := (ofUser_failure_iff tree options env _).mpr ⟨_, _, _, found, first, rfl⟩
      simp [ofFiles, andThen, user]
    | systemUnreadable sound enabled required read =>
      have user := (ofUser_complete_iff tree options env).mpr sound
      have system := (ofSystem_failure_iff tree options env _).mpr
        (.inl ⟨_, enabled, required, read, rfl⟩)
      simp [ofFiles, andThen, user, system]
    | systemLine sound found first =>
      have user := (ofUser_complete_iff tree options env).mpr sound
      have system := (ofSystem_failure_iff tree options env _).mpr
        (.inr ⟨_, _, _, found, first, rfl⟩)
      simp [ofFiles, andThen, user, system]

/-- A reading of both files that does not end early comes to all entries of the files that can
    be read. -/
theorem ofFiles_of_complete (complete : (ofFiles tree options env).failure? = none) :
    ofFiles tree options env =
      ⟨(filesRead tree options env).flatMap TextFile.entries,
        (filesRead tree options env).map (·.source), none⟩ := by
  cases user : (ofUser tree options env).failure? with
  | some failure => simp [ofFiles, andThen, user] at complete
  | none =>
    have system : (ofSystem tree options env).failure? = none := by
      simpa [ofFiles, andThen, user] using complete
    have whole := ofUser_of_complete tree options env user
    rw [ofFiles, whole, ofSystem_of_complete tree options env system]
    simp [andThen, filesRead]

end Reading

/-! ## Loading -/

theorem entries_declarations (files : List TextFile) :
    (files.flatMap TextFile.entries).map (·.declaration) =
      files.flatMap (declarationsOf ·.text.lines) := by
  simp [List.map_flatMap, TextFile.entries, Function.comp_def]

theorem mem_declarationsOf {lines : List Text} {declaration : Declaration} :
    declaration ∈ declarationsOf lines ↔
      ∃ line ∈ lines, Declaration.parse line = .ok (some declaration) := by
  have declared (line : Text) : Declaration.ofLine? line = some declaration ↔
      Declaration.parse line = .ok (some declaration) := by
    cases parsed : Declaration.parse line <;> simp [Declaration.ofLine?, parsed]
  simp [declarationsOf, declared]

/-- A load on a new configuration fails for the causes above and for no other.  Without a cause
    it takes over the files that can be read, line by line and the per-user file first: all
    their records, the last value of each width, and whether formatted pages are kept. -/
theorem load_empty_outcome (tree : FileTree) (options : ConfigFiles) (env : Environment) :
    (∀ failure, (Configuration.empty.load tree options env).value.failure? = some failure ↔
      LoadFails tree options env failure) ∧
    ((∀ failure, ¬ LoadFails tree options env failure) →
      ∃ config, (Configuration.empty.load tree options env).value = ⟨config, none⟩ ∧
        config.loaded = true ∧
        config.catalog.records = (filesRead tree options env).flatMap (fun file =>
          (declarationsOf file.text.lines).flatMap fun declaration =>
            Entry.records ⟨file.source.owner, declaration⟩) ∧
        (∀ which, config.formatting.widthOf which =
          (lastWidth? which ((filesRead tree options env).flatMap (declarationsOf ·.text.lines))).getD
            (Formatting.widthOf {} which)) ∧
        (config.formatting.noCache = true ↔ ∃ file ∈ filesRead tree options env,
          ∃ line ∈ file.text.lines, Declaration.parse line = .ok (some .noCache)) ∧
        config.sources = (filesRead tree options env).map (·.source)) := by
  have loaded := Configuration.load_value .empty tree options env rfl
  refine ⟨fun failure => ?_, fun sound => ?_⟩
  · rw [loaded]
    exact Reading.ofFiles_failure_iff tree options env failure
  · have complete : (Reading.ofFiles tree options env).failure? = none := by
      rw [Option.eq_none_iff_forall_ne_some]
      intro failure ended
      exact sound failure ((Reading.ofFiles_failure_iff tree options env failure).mp ended)
    rw [Reading.ofFiles_of_complete tree options env complete] at loaded
    refine ⟨_, loaded, rfl, ?_, ?_, ?_, ?_⟩
    · simp [Configuration.after, Configuration.empty, TextFile.entries, List.flatMap_assoc,
        List.flatMap_map]
    · intro which
      simp only [Configuration.after, Formatting.widthOf_after, entries_declarations]
      rfl
    · simp [Configuration.after, Configuration.empty, Formatting.after, entries_declarations,
        mem_declarationsOf]
    · simp [Configuration.after, Configuration.empty]

/-! ## Loads as values -/

/-- A load: the files as they are at that time, and the arguments. -/
structure Attempt where
  tree : FileTree
  options : ConfigFiles
  env : Environment

namespace Attempt

def run (attempt : Attempt) (config : Configuration) : Outcome Configuration :=
  (config.load attempt.tree attempt.options attempt.env).value

/-- What a load reads, up to the first fault. -/
def reading (attempt : Attempt) : Reading :=
  .ofFiles attempt.tree attempt.options attempt.env

/-- A load of a per-user file, and of a system-wide file if there is one. -/
def ofTexts (user : String) (system? : Option String) : Attempt where
  tree := {
    root := .directory
      ((Octets.encode "home".toList, .directory
        [(Octets.encode ".manpath".toList, .file (Octets.encode user.toList))]) ::
      system?.toList.map fun text =>
        (Octets.encode "manpath.config".toList, .file (Octets.encode text.toList))) }
  options := { systemFile := Octets.encode "/manpath.config".toList }
  env := { home := some (Octets.encode "/home".toList) }

end Attempt

/-- A load that has not been done puts its reading on top and marks the configuration. -/
theorem run_of_unloaded (attempt : Attempt) {config : Configuration}
    (unloaded : config.loaded = false) :
    attempt.run config =
      ⟨{ config.after attempt.reading.entries attempt.reading.sources with
          loaded := attempt.reading.failure?.isNone }, attempt.reading.failure?⟩ :=
  Configuration.load_value config attempt.tree attempt.options attempt.env unloaded

end ManualPages
