import ManualPages.LocaleDirectories
import ManualPages.Finder.Options
import ManualPages.SystemDirectories

/-! # The finder

Search paths from the configuration and the environment.

* `Finder` — a configuration, loaded when it is first needed, and what it is asked with.
* `Finder.mandatoryPath` — the hierarchies that are always searched.
* `Finder.pathOfPrograms` — the hierarchies of a search path for programs.
* `Finder.defaultPath` — the search path from the configuration.
* `Finder.manualPath` — the search path, the environment included.
* `Finder.directoryList`, `localePath`, `systemPath` — what becomes of a search path.
-/

namespace ManualPages

/-- A configuration together with what search paths are asked with. -/
structure Finder where
  config : Configuration := {}
  env : Environment := {}
  options : Options := {}
  expander : Expander := Expander.wildcards

namespace Finder

def new (options : Options) (env : Environment) (expander : Expander) : Finder :=
  { options, env, expander }

/-! ## Loading -/

def load (tree : FileTree) (finder : Finder) : Traced (Outcome Finder) := do
  let outcome ← finder.config.load tree finder.options.load finder.env
  return ⟨{ finder with config := outcome.state }, outcome.failure?⟩

def reset (finder : Finder) : Finder := { finder with config := finder.config.reset }

/-! ## Alternate systems -/

/-- The systems in force: those given, else those of the options, else those of the
    environment. -/
def systemsInForce (finder : Finder) (systems? : Option Text) : Option Text :=
  (systems?.or finder.options.systems).or finder.env.systems?

def systemPath (tree : FileTree) (finder : Finder) (systems? : Option Text) (path : Text) :
    Traced Text :=
  SystemDirectories.extend tree (finder.systemsInForce systems?) path

/-! ## Mandatory hierarchies -/

def fallback : Text := "/usr/man".toList

def mandatoryKeys (config : Configuration) : List Text :=
  (config.catalog.recordsAbout .mandatory).map (·.key)

/-- Appends a candidate to a search path if it is a directory. -/
def addMandatory (tree : FileTree) (result candidate : Text) : Traced Text :=
  match tree.probe candidate with
  | .directory => SearchPath.appendTraced result candidate
  | .notDirectory => do
    Traced.report (.notDirectory candidate)
    return result
  | .unreadable .notFound => do
    Traced.report (.mandatoryMissing candidate)
    return result
  | .unreadable cause => do
    Traced.report (.cannotExamine candidate cause)
    return result

def addMandatoryPattern (tree : FileTree) (expander : Expander) (result pattern : Text) :
    Traced Text := do
  let candidates ← expander.expand tree pattern
  candidates.foldlM (addMandatory tree) result

def mandatoryPath (tree : FileTree) (finder : Finder) : Traced Text := do
  let path ← (mandatoryKeys finder.config).foldlM
    (addMandatoryPattern tree finder.expander) []
  return (SearchPath.nonEmpty? path).getD fallback

/-! ## Hierarchies of programs -/

/-- Where the hierarchy of a directory of programs is looked for, in order: beside it
    and below it, then the same below `share`. -/
def hierarchyCandidates (programs : Text) : List Text :=
  let parent? := programs.beforeLast? '/'
  let inside (directory : Text) (t : String) := directory ++ t.toList
  (parent?.map (inside · "/man")).toList ++ [inside programs "/man"]
    ++ (parent?.map (inside · "/share/man")).toList ++ [inside programs "/share/man"]

def hierarchyBeside? (tree : FileTree) (programs : Text) : Option Text :=
  (hierarchyCandidates programs).find? tree.isDirectory

/-- The elements of a search path for programs that are looked at: not the empty ones,
    and not the current directory. -/
def programDirectories (path : Text) : List Text :=
  (SearchPath.entries path).filter (· ≠ ['.'])

/-- The hierarchies that a directory of programs contributes: all that the configuration
    maps it to, else the one beside or below it. -/
def hierarchiesOf (tree : FileTree) (config : Configuration) (programs : Text) : List Text :=
  match config.catalog.recordsOf programs .programMap with
  | [] => (hierarchyBeside? tree programs).toList
  | mapped => mapped.map (·.content)

/-- The events that tell where the hierarchies of a directory of programs come from. -/
def programEvents (tree : FileTree) (config : Configuration) (programs : Text) : List Event :=
  match config.catalog.recordsOf programs .programMap with
  | _ :: _ => [.programs programs, .programsMapped programs]
  | [] =>
    match hierarchyBeside? tree programs with
    | some hierarchy => [.programs programs, .programsBeside programs hierarchy]
    | none => [.programs programs, .programsUnmapped programs]

/-- The patterns that a hierarchy contributes: the override inside it, then itself. -/
def withOverride (options : Options) (hierarchy : Text) : List Text :=
  match options.overrideDirectory with
  | some name => [hierarchy ++ '/' :: name, hierarchy]
  | none => [hierarchy]

def addPatterns (tree : FileTree) (expander : Expander) (list : DirectoryList) :
    List Text → Traced (Except Failure DirectoryList)
  | [] => pure (.ok list)
  | pattern :: rest => do
    let outcome ← list.addNew tree expander pattern
    match outcome.failure? with
    | some failure => return .error failure
    | none => addPatterns tree expander outcome.state rest

def addHierarchies (tree : FileTree) (finder : Finder) (list : DirectoryList)
    (hierarchies : List Text) : Traced (Except Failure DirectoryList) :=
  addPatterns tree finder.expander list
    (hierarchies.flatMap (withOverride finder.options))

def addPrograms (tree : FileTree) (finder : Finder) (list : DirectoryList) :
    List Text → Traced (Except Failure DirectoryList)
  | [] => pure (.ok list)
  | programs :: rest => do
    Traced.reportAll (programEvents tree finder.config programs)
    match ← addHierarchies tree finder list (hierarchiesOf tree finder.config programs) with
    | .error failure => return .error failure
    | .ok list => addPrograms tree finder list rest

/-- The hierarchies of a search path for programs, and the mandatory ones after them if
    they are wanted. -/
def pathOfPrograms (tree : FileTree) (finder : Finder) (path : Text)
    (includeMandatory : Bool) : Traced (Except Failure Text) := do
  let list := DirectoryList.withLimit finder.options.limit
  match ← addPrograms tree finder list (programDirectories path) with
  | .error failure => return .error failure
  | .ok list =>
    if includeMandatory then
      Traced.report .addingMandatory
      match ← addHierarchies tree finder list (mandatoryKeys finder.config) with
      | .error failure => return .error failure
      | .ok list => return .ok list.join
    else return .ok list.join

/-! ## The search path -/

/-- The search path from a loaded configuration, before alternate systems. -/
def configuredPath (tree : FileTree) (finder : Finder) : Traced (Except Failure Text) :=
  let mandatory : Traced (Except Failure Text) := do return .ok (← mandatoryPath tree finder)
  match finder.env.programPath with
  | none => do
    Traced.report .programPathUnset
    mandatory
  | some path =>
    if finder.env.disablePath then mandatory
    else if path.isEmpty then do
      Traced.report .programPathEmpty
      mandatory
    else pathOfPrograms tree finder path true

def loadedDefaultPath (tree : FileTree) (finder : Finder) : Traced (Except Failure Text) := do
  match ← configuredPath tree finder with
  | .error failure => return .error failure
  | .ok path => return .ok (← finder.systemPath tree none path)

/-- Where a search path from the environment takes in the configured one. -/
inductive Override where
  | front (rest : Text)
  | back (rest : Text)
  | between (before behind : Text)
  | whole (path : Text)
  deriving DecidableEq, Repr

/-- Where a search path takes in the configured one: at its first empty element, a
    leading and a trailing one first. -/
def Override.ofPath (path : Text) : Override :=
  if path.head? = some ':' then .front (path.drop 1)
  else if path.getLast? = some ':' then .back path.dropLast
  else
    match Text.splitAtDouble? ':' path with
    | some (before, behind) => .between before behind
    | none => .whole path

/-- How a search path from the environment is combined with the configured one. -/
def Override.combination : Override → Combination
  | .front _ => .prepending
  | .back _ => .appending
  | .between .. => .inserting
  | .whole _ => .ignoring

/-- The search path that one from the environment asks for. -/
def overriddenPath (tree : FileTree) (finder : Finder) (override : Override) :
    Traced (Except Failure Text) := do
  Traced.report
    (.overrideInForce override.combination finder.options.load.systemFile.decodeLossy)
  match override with
  | .front rest =>
    let given ← finder.systemPath tree none rest
    match ← loadedDefaultPath tree finder with
    | .error failure => return .error failure
    | .ok configured => return .ok (SearchPath.joinParts [configured, given])
  | .back rest =>
    let given ← finder.systemPath tree none rest
    match ← loadedDefaultPath tree finder with
    | .error failure => return .error failure
    | .ok configured => return .ok (SearchPath.joinParts [given, configured])
  | .between before behind =>
    let first ← finder.systemPath tree none before
    match ← loadedDefaultPath tree finder with
    | .error failure => return .error failure
    | .ok configured =>
      let second ← finder.systemPath tree none behind
      return .ok (SearchPath.joinParts [first, configured, second])
  | .whole path => return .ok (← finder.systemPath tree none path)

/-- The search path of a loaded configuration, the environment included. -/
def loadedManualPath (tree : FileTree) (finder : Finder) : Traced (Except Failure Text) :=
  match finder.env.override? with
  | none => loadedDefaultPath tree finder
  | some path => overriddenPath tree finder (.ofPath path)

/-- An answer of a finder: the finder afterwards, and the answer or a failure. -/
structure Answer (α : Type) where
  /-- The finder, with the configuration as far as it was loaded. -/
  finder : Finder
  result : Except Failure α

def afterLoading {α : Type} (tree : FileTree) (finder : Finder)
    (ask : Finder → Traced (Except Failure α)) : Traced (Answer α) := do
  let outcome ← finder.load tree
  match outcome.failure? with
  | some failure => return ⟨outcome.state, .error failure⟩
  | none => return ⟨outcome.state, ← ask outcome.state⟩

def defaultPath (tree : FileTree) (finder : Finder) : Traced (Answer Text) :=
  afterLoading tree finder (loadedDefaultPath tree)

def manualPath (tree : FileTree) (finder : Finder) : Traced (Answer Text) :=
  afterLoading tree finder (loadedManualPath tree)

/-! ## What becomes of a search path -/

def directoryList (tree : FileTree) (finder : Finder) (path : Text) :
    Traced (Except Failure DirectoryList) :=
  DirectoryList.ofPath tree finder.expander finder.options.limit path

def localePath (tree : FileTree) (path names : Text) : Traced Text :=
  LocaleDirectories.forLocales tree path names

end Finder

end ManualPages
