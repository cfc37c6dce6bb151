import ManualPages.Proofs.Configuration.Loading
import ManualPages.Proofs.Finder.Appearance

/-! # The life of a finder

A finder loads its configuration when it is first asked for a search path, keeps it from then on, and
forgets it when it is reset; meanwhile the configuration files may get other contents.  One step of a
loaded finder changes neither the finder nor what it sees of the tree (`finder_next`,
`looksLike_next`), and what holds of whole runs follows by induction over the steps.

* `Question`, `Action`, `Session` — what a finder is asked, what may happen, and both over time.
* `load_of_loaded`, `loaded_of_load` — loading twice, and what a load that succeeds leaves.
* `finder_after`, `looksLike_after`, `reply_congr` — runs without a reset.
* `next_of_loads`, `reply_next`, `next_reset` — the first load, and the reset.
* `lifecycle` — a loaded finder answers alike until it is reset, and like a new one afterwards.
-/

namespace ManualPages

/-! ## Sessions -/

/-- A question that leaves a finder as it is. -/
inductive Question where
  | configuration
  | environment
  | options
  | mandatoryPath
  | pathOfPrograms (path : Text) (includeMandatory : Bool)
  | directoryList (path : Text)
  | localePath (path names : Text)
  | systemPath (systems? : Option Text) (path : Text)
  | sections
  | definition (name : Text) (allowUser : Bool)
  | cachePath (name : Text) (filter : OwnerFilter)
  | isGlobal (directory : Text)
  | cacheSearchPath (path : Text)
  | mappedHierarchies

inductive Reply where
  | done
  | failed (failure : Failure)
  | configuration (config : Configuration)
  | environment (env : Environment)
  | options (options : Options)
  | path (path : Text)
  | found (text? : Option Text)
  | texts (texts : List Text)
  | list (list : DirectoryList)
  | truth (holds : Bool)
  deriving DecidableEq

def Reply.ofResult {α : Type} (reply : α → Reply) : Except Failure α → Reply
  | .ok answer => reply answer
  | .error failure => .failed failure

def Finder.answer (tree : FileTree) (finder : Finder) : Question → Traced Reply
  | .configuration => pure (.configuration finder.config)
  | .environment => pure (.environment finder.env)
  | .options => pure (.options finder.options)
  | .mandatoryPath => .path <$> finder.mandatoryPath tree
  | .pathOfPrograms path includeMandatory =>
    .ofResult .path <$> finder.pathOfPrograms tree path includeMandatory
  | .directoryList path => .ofResult .list <$> finder.directoryList tree path
  | .localePath path names => .path <$> Finder.localePath tree path names
  | .systemPath systems? path => .path <$> finder.systemPath tree systems? path
  | .sections => pure (.texts finder.config.sections)
  | .definition name allowUser => pure (.found (finder.config.definition? name allowUser))
  | .cachePath name filter => pure (.found (finder.config.catalog.cachePath? name filter))
  | .isGlobal directory => pure (.truth (finder.config.catalog.isGlobal directory))
  | .cacheSearchPath path => .path <$> finder.config.catalog.cacheSearchPath path
  | .mappedHierarchies => .found <$> finder.config.catalog.mappedHierarchies?

inductive Action where
  | load
  | manualPath
  | defaultPath
  | ask (question : Question)
  | reset
  /-- One of the configuration files gets other contents. -/
  | edit (owner : Owner) (content : Octets)

/-- A finder and the tree that it is asked in. -/
structure Session where
  tree : FileTree
  finder : Finder

namespace Session

/-- Where a configuration file lies. -/
def filePath? (session : Session) : Owner → Option Octets
  | .user => Configuration.userPath? session.finder.options.load session.finder.env
  | .system => some session.finder.options.load.systemFile

/-- An answer that may have loaded the configuration. -/
def ofAnswer (session : Session) (answer : Finder.Answer Text) : Session × Reply :=
  ({ session with finder := answer.finder }, .ofResult .path answer.result)

def perform (session : Session) : Action → Traced (Session × Reply)
  | .load => do
    let outcome ← session.finder.load session.tree
    return ({ session with finder := outcome.state }, outcome.failure?.elim .done .failed)
  | .manualPath => session.ofAnswer <$> session.finder.manualPath session.tree
  | .defaultPath => session.ofAnswer <$> session.finder.defaultPath session.tree
  | .ask question => (session, ·) <$> session.finder.answer session.tree question
  | .reset => pure ({ session with finder := session.finder.reset }, .done)
  | .edit owner content =>
    match session.filePath? owner with
    | some path => pure ({ session with tree := session.tree.overwrite path content }, .done)
    | none => pure (session, .done)

def next (session : Session) (action : Action) : Session := (session.perform action).value.1

/-- The reply to an action, with what is reported on the way. -/
def reply (session : Session) (action : Action) : Traced Reply := Prod.snd <$> session.perform action

def after (session : Session) (actions : List Action) : Session := actions.foldl next session

def replies (session : Session) : List Action → List (Traced Reply)
  | [] => []
  | action :: rest => session.reply action :: (session.next action).replies rest

/-- The same session with a new finder that is asked with the same. -/
def renewed (session : Session) : Session where
  tree := session.tree
  finder := .new session.finder.options session.finder.env session.finder.expander

/-- An action that loads the configuration, or finds it loaded. -/
structure Loads (session : Session) (action : Action) : Prop where
  asks : action = .load ∨ action = .manualPath ∨ action = .defaultPath
  succeeds : (session.finder.load session.tree).value.failure? = none

/-- The expander does not look into the configuration files. -/
def EditsIgnored (session : Session) : Prop :=
  ∀ owner path, session.filePath? owner = some path → session.finder.expander.IgnoresContents path

end Session

/-! ## Loading -/

theorem Configuration.loaded_of_load {config : Configuration} {tree : FileTree}
    {options : ConfigFiles} {env : Environment}
    (succeeds : (config.load tree options env).value.failure? = none) :
    (config.load tree options env).value.state.loaded = true := by
  cases unloaded : config.loaded with
  | true => simp [load, unloaded]
  | false =>
    rw [load_value config tree options env unloaded] at succeeds ⊢
    exact Option.isNone_iff_eq_none.mpr succeeds

namespace Finder

variable {tree : FileTree} {finder : Finder}

theorem load_of_loaded (loaded : finder.config.loaded = true) :
    finder.load tree = pure ⟨finder, none⟩ := by
  have nothing : finder.config.load tree finder.options.load finder.env =
      pure ⟨finder.config, none⟩ := by
    rw [Configuration.load, if_pos loaded]
  rw [load, nothing]
  rfl

theorem afterLoading_of_loaded {α : Type} (loaded : finder.config.loaded = true)
    (ask : Finder → Traced (Except Failure α)) :
    afterLoading tree finder ask = (⟨finder, ·⟩) <$> ask finder := by
  rw [afterLoading, load_of_loaded loaded]
  rfl

theorem afterLoading_of_success {α : Type} {ask : Finder → Traced (Except Failure α)}
    (succeeds : (finder.load tree).value.failure? = none) :
    (afterLoading tree finder ask).value =
      ⟨(finder.load tree).value.state, (ask (finder.load tree).value.state).value⟩ := by
  simp [afterLoading, succeeds]

theorem answer_congr {other : FileTree} (same : tree.LooksLike finder.expander other) :
    finder.answer other = finder.answer tree := by
  funext question
  cases question with
  | mandatoryPath => rw [answer, answer, mandatoryPath_congr same]
  | pathOfPrograms path includeMandatory => rw [answer, answer, pathOfPrograms_congr same]
  | directoryList path =>
    rw [answer, answer, directoryList, directoryList, DirectoryList.ofPath_congr same]
  | localePath path names =>
    rw [answer, answer, localePath, localePath, LocaleDirectories.forLocales_congr same]
  | systemPath systems? path => rw [answer, answer, systemPath_congr same]
  | configuration | environment | options | sections | definition _ _ | cachePath _ _ | isGlobal _
  | cacheSearchPath _ | mappedHierarchies => rfl

end Finder

/-! ## Runs without a reset -/

namespace Session

variable {session : Session} {action : Action}

theorem finder_next (loaded : session.finder.config.loaded = true) (kept : action ≠ .reset) :
    (session.next action).finder = session.finder := by
  cases action with
  | load => simp [next, perform, Finder.load_of_loaded loaded]
  | manualPath =>
    simp [next, perform, ofAnswer, Finder.manualPath, Finder.afterLoading_of_loaded loaded]
  | defaultPath =>
    simp [next, perform, ofAnswer, Finder.defaultPath, Finder.afterLoading_of_loaded loaded]
  | ask question => rfl
  | reset => contradiction
  | edit owner content =>
    rw [next, perform]
    cases session.filePath? owner <;> rfl

theorem looksLike_next (ignored : session.EditsIgnored) (action : Action) :
    session.tree.LooksLike session.finder.expander (session.next action).tree := by
  cases action with
  | load | manualPath | defaultPath | ask _ | reset => exact .refl session.tree
  | edit owner content =>
    rw [next, perform]
    cases located : session.filePath? owner with
    | none => exact .refl session.tree
    | some path => exact looksLike_overwrite (ignored owner path located) session.tree content

theorem finder_after (loaded : session.finder.config.loaded = true) {actions : List Action}
    (kept : .reset ∉ actions) : (session.after actions).finder = session.finder := by
  induction actions generalizing session with
  | nil => rfl
  | cons action rest ih =>
    rw [List.mem_cons, not_or] at kept
    -- the finder is the invariant: loaded before the action, and the same one behind it
    have step := finder_next loaded (Ne.symm kept.1)
    exact (ih (by rw [step]; exact loaded) kept.2).trans step

theorem looksLike_after (loaded : session.finder.config.loaded = true)
    (ignored : session.EditsIgnored) {actions : List Action} (kept : .reset ∉ actions) :
    session.tree.LooksLike session.finder.expander (session.after actions).tree := by
  induction actions generalizing session with
  | nil => exact .refl session.tree
  | cons action rest ih =>
    rw [List.mem_cons, not_or] at kept
    have step := finder_next loaded (Ne.symm kept.1)
    have stillLoaded : (session.next action).finder.config.loaded = true := by rw [step, loaded]
    have stillIgnored : (session.next action).EditsIgnored := by
      -- the files lie where they lay, for the same finder says where
      intro owner path located
      rw [step]
      refine ignored owner path ?_
      cases owner <;> simpa [filePath?, step] using located
    have further := ih stillLoaded stillIgnored kept.2
    -- `further` is about the expander behind the action, which is the one before it
    rw [step] at further
    exact (looksLike_next ignored action).trans further

theorem reply_congr {other : Session} (loaded : session.finder.config.loaded = true)
    (sameFinder : other.finder = session.finder)
    (sameTree : session.tree.LooksLike session.finder.expander other.tree) (action : Action) :
    other.reply action = session.reply action := by
  obtain ⟨tree, finder⟩ := other
  obtain rfl : finder = session.finder := sameFinder
  cases action with
  | load => simp only [reply, perform, Finder.load_of_loaded loaded]; rfl
  | manualPath =>
    simp only [reply, perform, Finder.manualPath, Finder.afterLoading_of_loaded loaded,
      Finder.loadedManualPath_congr sameTree]
    rfl
  | defaultPath =>
    simp only [reply, perform, Finder.defaultPath, Finder.afterLoading_of_loaded loaded,
      Finder.loadedDefaultPath_congr sameTree]
    rfl
  | ask question =>
    simp only [reply, perform, Finder.answer_congr sameTree]
    rfl
  | reset => rfl
  | edit owner content =>
    have sameFile : filePath? ⟨tree, session.finder⟩ owner = session.filePath? owner := by
      cases owner <;> rfl
    rw [reply, reply, perform, perform, sameFile]
    cases session.filePath? owner <;> rfl

/-! ## The first load and the reset -/

theorem next_of_loads (loads : session.Loads action) :
    session.next action =
      { session with finder := (session.finder.load session.tree).value.state } := by
  obtain rfl | rfl | rfl := loads.asks
  · rfl
  · simp [next, perform, ofAnswer, Finder.manualPath, Finder.afterLoading_of_success loads.succeeds]
  · simp [next, perform, ofAnswer, Finder.defaultPath, Finder.afterLoading_of_success loads.succeeds]

theorem loaded_next (loads : session.Loads action) :
    (session.next action).finder.config.loaded = true := by
  rw [next_of_loads loads]
  exact Configuration.loaded_of_load loads.succeeds

theorem editsIgnored_next (loads : session.Loads action) (ignored : session.EditsIgnored) :
    (session.next action).EditsIgnored := by
  rw [next_of_loads loads]
  intro owner path located
  refine ignored owner path ?_
  cases owner <;> exact located

/-- The call that loads the configuration has the reply that it has when it is repeated. -/
theorem reply_next (loads : session.Loads action) :
    ((session.next action).reply action).value = (session.reply action).value := by
  have loaded := loaded_next loads
  rw [next_of_loads loads] at loaded ⊢
  obtain rfl | rfl | rfl := loads.asks
  · have done : (session.reply .load).value = .done := by
      simp [reply, perform, loads.succeeds]
    rw [done]
    simp only [reply, perform, Finder.load_of_loaded loaded]
    rfl
  · simp only [reply, perform, Finder.manualPath, Finder.afterLoading_of_loaded loaded,
      Traced.value_map, Finder.afterLoading_of_success loads.succeeds]
    rfl
  · simp only [reply, perform, Finder.defaultPath, Finder.afterLoading_of_loaded loaded,
      Traced.value_map, Finder.afterLoading_of_success loads.succeeds]
    rfl

theorem next_reset (session : Session) : session.next .reset = session.renewed := rfl

end Session

/-- At whatever point of a run: after an action that loads the configuration, or finds it loaded,
    the configuration stays as it is until a reset, whatever the files get for contents; and every
    action, that one included, is replied to in the same way whenever it is repeated.  After a reset
    all replies are those of a new finder. -/
theorem lifecycle (session : Session) :
    (∀ call, session.Loads call → ∀ actions, .reset ∉ actions →
      let loaded := session.next call
      (loaded.after actions).finder.config = loaded.finder.config ∧
      (session.EditsIgnored →
        (∀ action, (loaded.after actions).reply action = loaded.reply action) ∧
        ((loaded.after actions).reply call).value = (session.reply call).value)) ∧
    ∀ actions, (session.next .reset).replies actions = session.renewed.replies actions := by
  refine ⟨fun call loads actions kept => ?_, fun actions => ?_⟩
  · -- all that a reply depends on is the finder, which is kept, and what is seen of the tree
    intro loaded
    have isLoaded : loaded.finder.config.loaded = true := Session.loaded_next loads
    have sameFinder := Session.finder_after isLoaded kept
    refine ⟨by rw [sameFinder], fun ignored => ?_⟩
    have sameTree := Session.looksLike_after isLoaded (Session.editsIgnored_next loads ignored) kept
    have sameReply (action : Action) : (loaded.after actions).reply action = loaded.reply action :=
      Session.reply_congr isLoaded sameFinder sameTree action
    refine ⟨sameReply, ?_⟩
    -- the call that loads reports more than its repetition, but its result is the same
    rw [sameReply call]
    exact Session.reply_next loads
  · rw [Session.next_reset]

/-- A new finder, and a system-wide file that defines the pager. -/
def pagerDefined : Session :=
  let attempt := Attempt.ofTexts "" (some "DEFINE pager less\n")
  ⟨attempt.tree, .new { load := attempt.options } attempt.env .wildcards⟩

/-- The pager is defined anew while the finder is loaded, which shows only after a reset. -/
theorem lifecycle_of_new_pager :
    let redefine := Action.edit .system (Octets.encode "DEFINE pager most\n".toList)
    let ask := Action.ask (.definition "pager".toList false)
    let loaded := pagerDefined.next .load
    pagerDefined.Loads .load ∧ pagerDefined.EditsIgnored ∧
      (loaded.after [redefine, .manualPath]).reply ask = loaded.reply ask ∧
      (loaded.reply ask).value = .found (some "less".toList) ∧
      (((loaded.after [redefine]).next .reset).replies [.load, ask]).map (·.value) =
        [.done, .found (some "most".toList)] := by
  intro redefine ask loaded
  have loads : pagerDefined.Loads .load := ⟨.inl rfl, by decide⟩
  have ignored : pagerDefined.EditsIgnored := fun _ path _ => Expander.wildcards_ignoresContents path
  obtain ⟨stays, -⟩ := lifecycle pagerDefined
  obtain ⟨-, answers⟩ := stays .load loads [redefine, .manualPath] (by simp [redefine])
  obtain ⟨-, renewed⟩ := lifecycle (loaded.after [redefine])
  refine ⟨loads, ignored, (answers ignored).1 ask, by decide, ?_⟩
  rw [renewed]
  decide

end ManualPages
