import ManualPages.CommandLine.Run
import ManualPages.Proofs.Configuration.RecordShape
import ManualPages.Proofs.Text.Json

/-! # Failed calls

What can keep a call from being answered, stage by stage, and what of a call that fails is written.
A failure is told in one line, the last on standard error at every level.  Before it nothing is
written on standard output, but for one listing that is written while it is made.

* `AnswerFails`, `answer_failure_iff` — the failures of a query, and that there are no others.
* `Written.Plain`, `plain_answer` — answers of which nothing is written before a failure.
* `Invocation.Fails`, `execute_failure_iff` — the same for an invocation.
* `Invocation.BreaksOff`, `output_eq_nil_iff` — the listing that is begun and not finished.
* `run_outcome` — how an invocation ends on any host, and every call that makes it up.
-/

namespace ManualPages.CommandLine

/-! ## Queries -/

/-- When a query fails, once the configuration has been loaded, and what its failure is. -/
def AnswerFails (tree : FileTree) (finder : Finder) (locales? : Option Text)
    (failure : CommandFailure) : Query → Prop
  | .searchPath _ false =>
    ∃ cause, (searchPath tree finder locales?).value = .error cause ∧ failure = .resolving cause
  | .searchPath _ true =>
    (∀ record ∈ finder.config.catalog.records, ∀ owner, record.subject ≠ .cacheMap owner) ∧
      failure = .resolving (.noMappedHierarchies finder.options.load.systemFile)
  | .list _ =>
    ∃ cause, ((searchPath tree finder locales?).value = .error cause ∨
        ∃ path, (searchPath tree finder locales?).value = .ok path ∧
          (finder.directoryList tree path).value = .error cause) ∧
      failure = .resolving cause
  | .sections | .showConfig .text => False
  | .define name allowUser =>
    finder.config.definition? name allowUser = none ∧ failure = .notDefined name
  | .cachePath name scope =>
    (∀ record ∈ finder.config.catalog.records, ¬ record.Eligible scope name) ∧
      failure = .notMapped name
  | .isGlobal directory invert =>
    finder.config.catalog.isGlobal directory = invert ∧ failure = .globalness directory invert
  | .showConfig .json =>
    (∃ source ∈ finder.config.sources, source.path.decode? = none) ∧ failure = .pathNotText

section Listings

variable {failure : CommandFailure}

theorem ofJson_failure_iff (value : Json) :
    (Written.ofJson value).failure? = some failure ↔
      (∃ path ∈ value.paths, path.decode? = none) ∧ failure = .pathNotText := by
  have complete := Json.pretty_complete_iff value
  simp only [Json.Readable, Option.isSome_iff_ne_none] at complete
  simp only [Written.ofJson]
  split
  next finished =>
    have readable := complete.mp finished
    simpa [Written.ofText] using fun path member unread => absurd unread (readable path member)
  next broken =>
    rw [complete] at broken
    push Not at broken
    simp only [Option.some.injEq, broken, true_and]
    exact eq_comm

theorem showText_failure_iff (t? : Option Text) (other : CommandFailure) :
    (showText t? other).failure? = some failure ↔ t? = none ∧ failure = other := by
  cases t? <;> simp [showText, Written.ofText, Written.ofFailure, eq_comm]

theorem paths_configJson (config : Configuration) :
    (configJson config).paths = config.sources.map (·.path) := by
  have ofSources : (config.sources.map sourceJson).flatMap Json.paths =
      config.sources.map (·.path) := by
    rw [List.flatMap_map, List.map_eq_flatMap]
    rfl
  have ofRecords : (config.catalog.records.map recordJson).flatMap Json.paths = [] := by
    rw [List.flatMap_map]
    exact List.flatMap_eq_nil_iff.mpr fun _ _ => rfl
  simp only [configJson, formattingJson, Json.paths, Json.fieldPaths, Json.itemPaths_eq, ofSources,
    ofRecords, List.append_nil]

theorem paths_directoryJson (list : DirectoryList) : (directoryJson list).paths = [] := by
  simp [directoryJson, Json.paths, Json.itemPaths_eq, List.flatMap_map]

end Listings

section Answers

variable {tree : FileTree} {finder : Finder} {locales? : Option Text} {failure : CommandFailure}

theorem value_showPath (cachePaths : Bool) :
    (showPath tree finder locales? cachePaths false).value =
      match (searchPath tree finder locales?).value with
      | .error cause => .ofFailure (.resolving cause)
      | .ok path => .ofText (onLine (if cachePaths then
          (finder.config.catalog.cacheSearchPath path).value else path)) := by
  cases path : (searchPath tree finder locales?).value with
  | error cause => simp [showPath, path]
  | ok path' => cases cachePaths <;> simp [showPath, path]

theorem value_showMapped (cachePaths : Bool) :
    (showPath tree finder locales? cachePaths true).value =
      match finder.config.catalog.mappedHierarchies?.value with
      | none => .ofFailure (.resolving (.noMappedHierarchies finder.options.load.systemFile))
      | some path => .ofText (onLine (if cachePaths then
          (finder.config.catalog.cacheSearchPath path).value else path)) := by
  cases mapped : finder.config.catalog.mappedHierarchies?.value with
  | none => simp [showPath, mapped]
  | some path => cases cachePaths <;> simp [showPath, mapped]

theorem value_showList (format : Format) :
    (showList tree finder locales? format).value =
      match (searchPath tree finder locales?).value with
      | .error cause => .ofFailure (.resolving cause)
      | .ok path =>
        match (finder.directoryList tree path).value, format with
        | .error cause, _ => .ofFailure (.resolving cause)
        | .ok list, .text => .ofText (directoryLines list)
        | .ok list, .json => .ofJson (directoryJson list) := by
  cases path : (searchPath tree finder locales?).value with
  | error cause => simp [showList, path]
  | ok path' =>
    cases list : (finder.directoryList tree path').value with
    | error cause => simp [showList, path, list]
    | ok directories => cases format <;> simp [showList, path, list]

theorem showPath_failure_iff (cachePaths : Bool) :
    (showPath tree finder locales? cachePaths false).value.failure? = some failure ↔
      ∃ cause, (searchPath tree finder locales?).value = .error cause ∧
        failure = .resolving cause := by
  rw [value_showPath]
  cases (searchPath tree finder locales?).value with
  | error cause => simp [Written.ofFailure, eq_comm]
  | ok path => simp [Written.ofText]

theorem showMapped_failure_iff (wellFormed : finder.config.WellFormed) (cachePaths : Bool) :
    (showPath tree finder locales? cachePaths true).value.failure? = some failure ↔
      (∀ record ∈ finder.config.catalog.records, ∀ owner, record.subject ≠ .cacheMap owner) ∧
        failure = .resolving (.noMappedHierarchies finder.options.load.systemFile) := by
  rw [← Catalog.mappedHierarchies?_eq_none_iff wellFormed, value_showMapped]
  cases finder.config.catalog.mappedHierarchies?.value with
  | none => simp [Written.ofFailure, eq_comm]
  | some path => simp [Written.ofText]

theorem showList_failure_iff (format : Format) :
    (showList tree finder locales? format).value.failure? = some failure ↔
      ∃ cause, ((searchPath tree finder locales?).value = .error cause ∨
          ∃ path, (searchPath tree finder locales?).value = .ok path ∧
            (finder.directoryList tree path).value = .error cause) ∧
        failure = .resolving cause := by
  rw [value_showList]
  cases (searchPath tree finder locales?).value with
  | error cause => simp [Written.ofFailure, eq_comm]
  | ok path =>
    cases list : (finder.directoryList tree path).value with
    | error cause => simp [list, Written.ofFailure, eq_comm]
    | ok directories =>
      cases format with
      | text => simp [list, Written.ofText]
      | json => simp [list, ofJson_failure_iff, paths_directoryJson]

theorem answer_failure_iff (wellFormed : finder.config.WellFormed) (query : Query) :
    (answer tree finder locales? query).value.failure? = some failure ↔
      AnswerFails tree finder locales? failure query := by
  cases query with
  | searchPath cachePaths allMapped =>
    cases allMapped with
    | false => exact showPath_failure_iff cachePaths
    | true => rw [answer, showMapped_failure_iff wellFormed, AnswerFails]
  | list format => exact showList_failure_iff format
  | sections => simp [answer, Written.ofText, AnswerFails]
  | define name allowUser => exact showText_failure_iff _ _
  | cachePath name scope =>
    rw [answer, Traced.value_pure, showText_failure_iff, ← Option.not_isSome_iff_eq_none,
      Catalog.cachePath?_isSome_iff, AnswerFails]
    push Not
    rfl
  | isGlobal directory invert =>
    by_cases same : finder.config.catalog.isGlobal directory = invert
    · simp [answer, same, Written.ofFailure, AnswerFails, eq_comm]
    · simp [answer, same, AnswerFails]
  | showConfig format =>
    cases format with
    | text => simp [answer, Written.ofText, AnswerFails]
    | json =>
      rw [answer, Traced.value_pure, ofJson_failure_iff, paths_configJson, AnswerFails]
      simp

end Answers

/-! ## What is written of an answer -/

/-- No notice is written, and in front of a failure nothing at all. -/
structure Written.Plain (written : Written) : Prop where
  notice : written.notice = []
  output : written.failure?.isSome → written.output = []

theorem Written.Plain.ofText (t : Text) : (Written.ofText t).Plain := ⟨rfl, by simp [Written.ofText]⟩

theorem Written.Plain.ofFailure (failure : CommandFailure) : (Written.ofFailure failure).Plain :=
  ⟨rfl, fun _ => rfl⟩

theorem Written.output_ofJson (value : Json) : (ofJson value).output = value.pretty.written := by
  simp only [ofJson]
  split <;> rfl

theorem Written.notice_ofJson (value : Json) : (ofJson value).notice = [] := by
  simp only [ofJson]
  split <;> rfl

theorem plain_showText (t? : Option Text) (failure : CommandFailure) :
    (showText t? failure).Plain := by
  cases t? with
  | none => exact .ofFailure failure
  | some t => exact .ofText (onLine t)

section Answers

variable (tree : FileTree) (finder : Finder) (locales? : Option Text)

theorem plain_showPath (cachePaths allMapped : Bool) :
    (showPath tree finder locales? cachePaths allMapped).value.Plain := by
  cases allMapped with
  | false =>
    rw [value_showPath]
    split
    · exact .ofFailure _
    · exact .ofText _
  | true =>
    rw [value_showMapped]
    split
    · exact .ofFailure _
    · exact .ofText _

theorem plain_showList (format : Format) :
    (showList tree finder locales? format).value.Plain := by
  rw [value_showList]
  split
  · exact .ofFailure _
  · split
    · exact .ofFailure _
    · exact .ofText _
    · refine ⟨Written.notice_ofJson _, fun failed => ?_⟩
      -- a list of directories has no paths, so the listing never fails
      obtain ⟨failure, failed⟩ := Option.isSome_iff_exists.mp failed
      simp [ofJson_failure_iff, paths_directoryJson] at failed

theorem plain_answer {query : Query} (other : query ≠ .showConfig .json) :
    (answer tree finder locales? query).value.Plain := by
  cases query with
  | searchPath cachePaths allMapped => exact plain_showPath tree finder locales? _ _
  | list format => exact plain_showList tree finder locales? format
  | sections => exact .ofText _
  | define name allowUser => exact plain_showText _ _
  | cachePath name scope => exact plain_showText _ _
  | isGlobal directory invert =>
    simp only [answer]
    split
    · exact .ofFailure _
    · exact ⟨rfl, fun _ => rfl⟩
  | showConfig format =>
    cases format with
    | text => exact .ofText _
    | json => contradiction

theorem notice_answer (query : Query) : (answer tree finder locales? query).value.notice = [] := by
  by_cases report : query = .showConfig .json
  · rw [report]
    exact Written.notice_ofJson _
  · exact (plain_answer tree finder locales? report).notice

end Answers

/-! ## Invocations -/

/-- The finder that answers the query of an invocation, once its configuration has been loaded. -/
def Invocation.Loads (tree : FileTree) (env : Environment) (invocation : Invocation)
    (finder : Finder) : Prop :=
  ((Finder.new invocation.options env .wildcards).load tree).value = ⟨finder, none⟩

/-- What an invocation fails for: a configuration that is not loaded, or a query that is not
    answered then. -/
inductive Invocation.Fails (tree : FileTree) (env : Environment) (invocation : Invocation) :
    CommandFailure → Prop
  | loading {query : Query} {failure : Failure} :
      invocation.request = .query query →
      LoadFails tree invocation.options.load env failure →
      Fails tree env invocation (.resolving failure)
  | answering {query : Query} {finder : Finder} {failure : CommandFailure} :
      invocation.request = .query query →
      invocation.Loads tree env finder →
      AnswerFails tree finder invocation.locales failure query →
      Fails tree env invocation failure

/-- A report of the configuration in JSON is begun and not finished: the configuration is loaded,
    but one of its files has a path that is no text. -/
def Invocation.BreaksOff (tree : FileTree) (env : Environment) (invocation : Invocation) : Prop :=
  invocation.request = .query (.showConfig .json) ∧
  (∀ failure, ¬ LoadFails tree invocation.options.load env failure) ∧
  ∃ file ∈ filesRead tree invocation.options.load env, file.source.path.decode? = none

/-- What is said besides on standard error: where completions belong. -/
def Invocation.hint (invocation : Invocation) : Text :=
  match invocation.request with
  | .completions shell => if invocation.quiet then [] else installNotice shell
  | .query _ => []

section Invocations

variable {host : Host} {tree : FileTree} {env : Environment} {invocation : Invocation} {query : Query}
  {finder : Finder} {failure : CommandFailure}

theorem load_failure?_eq :
    ((Finder.new invocation.options env .wildcards).load tree).value.failure? =
      (Reading.ofFiles tree invocation.options.load env).failure? :=
  congrArg (·.failure?) (Configuration.load_value .empty tree invocation.options.load env rfl)

theorem load_failure_iff (cause : Failure) :
    ((Finder.new invocation.options env .wildcards).load tree).value.failure? = some cause ↔
      LoadFails tree invocation.options.load env cause := by
  rw [load_failure?_eq]
  exact Reading.ofFiles_failure_iff tree invocation.options.load env cause

theorem Invocation.Loads.sound (loads : invocation.Loads tree env finder) (cause : Failure) :
    ¬ LoadFails tree invocation.options.load env cause := by
  rw [← load_failure_iff cause, loads]
  exact nofun

theorem Invocation.exists_loads
    (sound : ∀ cause, ¬ LoadFails tree invocation.options.load env cause) :
    ∃ finder, invocation.Loads tree env finder := by
  have none : ((Finder.new invocation.options env .wildcards).load tree).value.failure? = none := by
    rw [Option.eq_none_iff_forall_ne_some]
    exact fun cause failed => sound cause ((load_failure_iff cause).mp failed)
  exact ⟨_, congrArg (Outcome.mk _) none⟩

theorem Invocation.Loads.config_eq (loads : invocation.Loads tree env finder) :
    finder.config = (Configuration.empty.load tree invocation.options.load env).value.state :=
  (congrArg (·.state.config) loads).symm

theorem Invocation.Loads.sources (loads : invocation.Loads tree env finder) :
    finder.config.sources = (filesRead tree invocation.options.load env).map (·.source) := by
  have complete : (Reading.ofFiles tree invocation.options.load env).failure? = none :=
    load_failure?_eq.symm.trans (congrArg (·.failure?) loads)
  rw [loads.config_eq, Configuration.load_value .empty tree invocation.options.load env rfl,
    Reading.ofFiles_of_complete tree invocation.options.load env complete]
  rfl

theorem Invocation.Loads.wellFormed (loads : invocation.Loads tree env finder) :
    finder.config.WellFormed := by
  rw [loads.config_eq]
  exact Configuration.wellFormed_run Configuration.wellFormed_empty
    (.load ⟨tree, invocation.options.load, env⟩)

theorem value_execute_of_loadFails {cause : Failure} (asked : invocation.request = .query query)
    (fails : LoadFails tree invocation.options.load env cause) :
    (execute host tree env invocation).value = .ofFailure (.resolving cause) := by
  have failed := (load_failure_iff cause).mpr fails
  simp [execute, asked, failed]

theorem value_execute_of_loads (asked : invocation.request = .query query)
    (loads : invocation.Loads tree env finder) :
    (execute host tree env invocation).value = (answer tree finder invocation.locales query).value := by
  have loaded : ((Finder.new invocation.options env .wildcards).load tree).value =
    ⟨finder, none⟩ := loads
  simp [execute, asked, loaded]

theorem value_execute_query (asked : invocation.request = .query query) :
    (∃ cause, LoadFails tree invocation.options.load env cause ∧
      (execute host tree env invocation).value = .ofFailure (.resolving cause)) ∨
    ∃ finder, invocation.Loads tree env finder ∧
      (execute host tree env invocation).value = (answer tree finder invocation.locales query).value := by
  by_cases sound : ∀ cause, ¬ LoadFails tree invocation.options.load env cause
  · obtain ⟨finder, loads⟩ := Invocation.exists_loads sound
    exact .inr ⟨finder, loads, value_execute_of_loads asked loads⟩
  · push Not at sound
    obtain ⟨cause, fails⟩ := sound
    exact .inl ⟨cause, fails, value_execute_of_loadFails asked fails⟩

theorem execute_failure_iff (host : Host) :
    (execute host tree env invocation).value.failure? = some failure ↔
      invocation.Fails tree env failure := by
  constructor
  · intro failed
    cases asked : invocation.request with
    | completions shell => simp [execute, asked] at failed
    | query query =>
      obtain ⟨cause, fails, value⟩ | ⟨finder, loads, value⟩ := value_execute_query asked
      · rw [value] at failed
        obtain rfl := Option.some.inj failed
        exact .loading asked fails
      · rw [value, answer_failure_iff loads.wellFormed] at failed
        exact .answering asked loads failed
  · intro fails
    cases fails with
    | loading asked fails =>
      rw [value_execute_of_loadFails asked fails]
      rfl
    | answering asked loads fails =>
      rw [value_execute_of_loads asked loads]
      exact (answer_failure_iff loads.wellFormed _).mpr fails

theorem notice_execute : (execute host tree env invocation).value.notice = invocation.hint := by
  unfold Invocation.hint
  cases asked : invocation.request with
  | completions shell => simp [execute, asked]
  | query query =>
    obtain ⟨cause, -, value⟩ | ⟨finder, -, value⟩ := value_execute_query asked
    · rw [value]
      rfl
    · rw [value]
      exact notice_answer tree finder invocation.locales query

theorem Invocation.Fails.hint_eq (fails : invocation.Fails tree env failure) :
    invocation.hint = [] := by
  unfold hint
  cases fails with
  | loading asked _ => rw [asked]
  | answering asked _ _ => rw [asked]

/-- A failed invocation has written nothing on standard output, or it has broken off a report. -/
theorem output_eq_nil_iff (fails : invocation.Fails tree env failure) :
    (execute host tree env invocation).value.output = [] ↔ ¬ invocation.BreaksOff tree env := by
  cases fails with
  | loading asked fails =>
    rw [value_execute_of_loadFails asked fails]
    exact iff_of_true rfl fun broken => broken.2.1 _ fails
  | answering asked loads fails =>
    rename_i query finder
    rw [value_execute_of_loads asked loads]
    by_cases report : query = .showConfig .json
    · subst report
      obtain ⟨⟨source, read, unread⟩, -⟩ := fails
      rw [loads.sources] at read
      obtain ⟨file, found, rfl⟩ := List.mem_map.mp read
      refine iff_of_false ?_ fun whole => whole ⟨asked, loads.sound, file, found, unread⟩
      rw [answer, Traced.value_pure, Written.output_ofJson]
      exact Json.written_pretty_object _
    · have failed := (answer_failure_iff loads.wellFormed query).mpr fails
      have plain := plain_answer tree finder invocation.locales report
      refine iff_of_true (plain.output (Option.isSome_of_eq_some failed)) fun broken => ?_
      have same := asked.symm.trans broken.1
      cases same
      contradiction

end Invocations

/-! ## Calls -/

theorem CommandFailure.exitCode_ne_zero (failure : CommandFailure) : failure.exitCode ≠ 0 := by
  cases failure with
  | resolving failure => cases failure <;> simp [exitCode, Failure.concernsFile]
  | usage _ | inputOutput _ | notDefined _ | notMapped _ | globalness _ _ => simp [exitCode]

theorem render_quiet (events : List Event) : Event.render .quiet events = [] := by
  refine List.flatMap_eq_nil_iff.mpr fun event _ => ?_
  cases event <;> rfl

section Runs

variable {host : Host} {tree : FileTree} {values : Variables} {invocation : Invocation}

theorem Invocation.run_of_success {env : Environment} (same : env = .ofVariables values host.home?)
    (ended : (execute host tree env invocation).value.failure? = none) :
    invocation.run host tree values =
      ⟨0, (execute host tree env invocation).value.output,
        Event.render (invocation.level values) (execute host tree env invocation).events ++
          invocation.hint⟩ := by
  subst same
  simp only [run]
  rw [ended, notice_execute]

theorem Invocation.run_of_failure {env : Environment} {failure : CommandFailure}
    (same : env = .ofVariables values host.home?)
    (ended : (execute host tree env invocation).value.failure? = some failure) :
    invocation.run host tree values =
      ⟨failure.exitCode, (execute host tree env invocation).value.output,
        Event.render (invocation.level values) (execute host tree env invocation).events ++
          failure.line⟩ := by
  subst same
  have silent := ((execute_failure_iff host).mp ended).hint_eq
  simp only [run]
  rw [ended, notice_execute, silent, List.append_nil]
  rfl

end Runs

/-- How an invocation ends, and with it every call whose arguments make it up.  Its code is not zero
    exactly if it fails, and then the line of the failure is the last on standard error, at every
    level.  Standard output is empty then, unless a report has been broken off. -/
theorem run_outcome (host : Host) (tree : FileTree) (values : Variables) (invocation : Invocation) :
    let env := Environment.ofVariables values host.home?
    let exit := invocation.run host tree values
    let told := Event.render (invocation.level values) (execute host tree env invocation).events
    (∀ arguments, Invocation.parse (values.value? Variables.systemFile) arguments = .ok invocation →
      run tree values arguments host = exit) ∧
    (exit.code ≠ 0 ↔ ∃ failure, invocation.Fails tree env failure) ∧
    (∀ failure, invocation.Fails tree env failure →
      exit.code = failure.exitCode ∧
      exit.errors = told ++ ("manpath: ".toList ++ failure.message ++ ['\n']) ∧
      (exit.output = [] ↔ ¬ invocation.BreaksOff tree env)) ∧
    (exit.code = 0 → exit.errors = told ++ invocation.hint) ∧
    (invocation.level values = .quiet → told = []) := by
  intro env exit told
  have called (arguments : List Text)
      (parsed : Invocation.parse (values.value? Variables.systemFile) arguments = .ok invocation) :
      run tree values arguments host = exit := by
    rw [run, parsed]
  have quiet : invocation.level values = .quiet → told = [] := by
    intro level
    rw [show told = Event.render (invocation.level values) _ from rfl, level]
    exact render_quiet _
  refine ⟨called, ?_⟩
  cases ended : (execute host tree env invocation).value.failure? with
  | none =>
    have sound (failure : CommandFailure) : ¬ invocation.Fails tree env failure := by
      rw [← execute_failure_iff host, ended]
      exact nofun
    have whole : exit = ⟨0, _, told ++ invocation.hint⟩ := Invocation.run_of_success rfl ended
    refine ⟨iff_of_false ?_ ?_, fun failure fails => absurd fails (sound failure), ?_, quiet⟩
    · simp [whole]
    · exact fun ⟨failure, fails⟩ => sound failure fails
    · simp [whole]
  | some failure =>
    have fails := (execute_failure_iff host).mp ended
    have whole : exit = ⟨failure.exitCode, _, told ++ failure.line⟩ :=
      Invocation.run_of_failure rfl ended
    have code : exit.code ≠ 0 := by
      rw [whole]
      exact failure.exitCode_ne_zero
    refine ⟨iff_of_true code ⟨failure, fails⟩, fun other otherFails => ?_, ?_, quiet⟩
    · -- both are what the one execution ends with
      obtain rfl := Option.some.inj (ended.symm.trans ((execute_failure_iff host).mpr otherFails))
      rw [whole]
      exact ⟨rfl, rfl, output_eq_nil_iff fails⟩
    · exact fun succeeded => absurd succeeded code

/-- A quiet call whose configuration file is missing. -/
theorem run_outcome_of_missing_file :
    let exit := run {} [] ["-q".toList, "list".toList]
    exit.code = 3 ∧ exit.output = [] ∧
      exit.errors = ("manpath: can't open the manpath configuration file ".toList ++
        "/etc/manpath.config: No such file or directory (os error 2)\n".toList) := by
  let invocation : Invocation := ⟨.query (.list .text), none, none, none, none, false, true⟩
  have parsed : Invocation.parse (Variables.value? [] Variables.systemFile)
      ["-q".toList, "list".toList] = .ok invocation := rfl
  have noUserFile : UserFileSound {} invocation.options.load (Environment.ofVariables []) := nofun
  have fails : invocation.Fails {} (Environment.ofVariables []) (.resolving
      (.fileUnreadable (Octets.encode "/etc/manpath.config".toList) _)) :=
    .loading rfl (.systemUnreadable noUserFile rfl rfl rfl)
  obtain ⟨called, -, failing, -, quiet⟩ := run_outcome {} {} [] invocation
  obtain ⟨code, errors, output⟩ := failing _ fails
  rw [called _ parsed]
  refine ⟨code, output.mpr fun broken => ?_, ?_⟩
  · cases broken.1
  · rw [errors, quiet rfl]
    decide

/-- A file is read whose name is not a text, and the report in JSON ends before that name. -/
theorem run_breaks_off :
    run { root := .directory [([0x6e, 0xff], .file [])] } [(Variables.systemFile, [0x6e, 0xff])]
        ["show-config".toList, "--format".toList, "json".toList] =
      ⟨5, "\x7b\n  \"sources\": [\n    \x7b\n      \"path\": ".toList,
        "manpath: I/O error: path contains invalid UTF-8 characters\n".toList⟩ := by
  decide +kernel

end ManualPages.CommandLine
