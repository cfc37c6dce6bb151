import ManualPages.CommandLine.Arguments
import ManualPages.CommandLine.Help
import ManualPages.CommandLine.Report
import ManualPages.Finder.Basic

/-! # Calls of the program

A call turns arguments, environment variables and a tree of files into an exit code and
what is written.

* `CommandFailure` — why a call fails, with its message and exit code.
* `Written` — what a command writes, and why it fails, if it does.
* `answer`, `execute` — the answer to a query, and the effect of an invocation.
* `Invocation.run`, `run` — how an invocation ends, and how a call does.
-/

namespace ManualPages

namespace CommandLine

/-! ## Failures -/

inductive CommandFailure where
  | resolving (failure : Failure)
  | usage (fault : UsageError)
  | inputOutput (cause : Text)
  | notDefined (name : Text)
  | notMapped (name : Text)
  /-- A directory is global, or is not, against what was asked. -/
  | globalness (directory : Text) (isGlobal : Bool)
  deriving DecidableEq, Repr

namespace CommandFailure

def message : CommandFailure → Text
  | .resolving failure => failure.message
  | .usage fault => "invalid arguments: ".toList ++ fault.message
  | .inputOutput cause => "I/O error: ".toList ++ cause
  | .notDefined name => name ++ " is not defined".toList
  | .notMapped name => "no cache directory is mapped for ".toList ++ name
  | .globalness directory isGlobal =>
    directory ++ " is ".toList ++ (if isGlobal then [] else "not ".toList)
      ++ "a global manual page directory".toList

/-- The exit code of a failed call: one for a negative answer, two where directories are
    at fault, three where a configuration file is, four for the arguments, five for input
    and output. -/
def exitCode : CommandFailure → Nat
  | .notDefined _ | .notMapped _ | .globalness .. => 1
  | .resolving failure =>
    if failure.concernsFile then 3
    else
      match failure with
      | .inputOutput _ => 5
      | _ => 2
  | .usage _ => 4
  | .inputOutput _ => 5

/-- What is said of a path that is no text where only a text can be written. -/
def pathNotText : CommandFailure := .inputOutput "path contains invalid UTF-8 characters".toList

/-- The last line on standard error of a failed call. -/
def line (failure : CommandFailure) : Text := Verbosity.line .error failure.message

end CommandFailure

/-! ## Commands -/

/-- What a command writes, and why it fails, if it does. -/
structure Written where
  output : Text := []
  notice : Text := []
  failure? : Option CommandFailure := none

namespace Written

def ofText (output : Text) : Written := { output }

def ofFailure (failure : CommandFailure) : Written := { failure? := some failure }

/-- A command that writes a JSON value.  It fails where a path in the value is no text,
    and what was written before that stays written. -/
def ofJson (value : Json) : Written :=
  let draft := value.pretty
  if draft.complete then ofText draft.written
  else { output := draft.written, failure? := some .pathNotText }

end Written

/-- The options of a finder that an invocation asks for. -/
def Invocation.options (invocation : Invocation) : Options where
  systems := invocation.systems
  load :=
    { userFile := invocation.userFile
      systemFile := invocation.systemFile.getD ({} : ConfigFiles).systemFile }

/-- The search path with the directories of locales, if any are given. -/
def searchPath (tree : FileTree) (finder : Finder) (locales? : Option Text) :
    Traced (Except Failure Text) := do
  let answer ← finder.manualPath tree
  match answer.result, locales? with
  | .ok path, some locales => return .ok (← Finder.localePath tree path locales)
  | result, _ => return result

/-- Shows the search path, or all hierarchies that have a cache directory, or the cache
    directories of either. -/
def showPath (tree : FileTree) (finder : Finder) (locales? : Option Text)
    (cachePaths allMapped : Bool) : Traced Written := do
  let path ←
    if allMapped then do
      match ← finder.config.catalog.mappedHierarchies? with
      | some path => pure (.ok path)
      | none => pure (.error (Failure.noMappedHierarchies finder.options.load.systemFile))
    else searchPath tree finder locales?
  match path with
  | .error failure => return .ofFailure (.resolving failure)
  | .ok path =>
    if cachePaths then
      let path ← finder.config.catalog.cacheSearchPath path
      return .ofText (onLine path)
    else return .ofText (onLine path)

def showList (tree : FileTree) (finder : Finder) (locales? : Option Text) (format : Format) :
    Traced Written := do
  match ← searchPath tree finder locales? with
  | .error failure => return .ofFailure (.resolving failure)
  | .ok path =>
    match ← finder.directoryList tree path with
    | .error failure => return .ofFailure (.resolving failure)
    | .ok list =>
      match format with
      | .text => return .ofText (directoryLines list)
      | .json => return .ofJson (directoryJson list)

def showText (t? : Option Text) (failure : CommandFailure) : Written :=
  match t? with
  | some t => .ofText (onLine t)
  | none => .ofFailure failure

/-- The answer to a query from a finder that has been loaded. -/
def answer (tree : FileTree) (finder : Finder) (locales? : Option Text) :
    Query → Traced Written
  | .searchPath cachePaths allMapped => showPath tree finder locales? cachePaths allMapped
  | .list format => showList tree finder locales? format
  | .sections => pure (.ofText (finder.config.sections.flatMap onLine))
  | .define name allowUser =>
    pure (showText (finder.config.definition? name allowUser) (.notDefined name))
  | .cachePath name scope =>
    pure (showText (finder.config.catalog.cachePath? name scope) (.notMapped name))
  | .isGlobal directory invert =>
    let isGlobal := finder.config.catalog.isGlobal directory
    if isGlobal = invert then pure (.ofFailure (.globalness directory isGlobal))
    else pure {}
  | .showConfig .text => pure (.ofText (configLines finder.config))
  | .showConfig .json => pure (.ofJson (configJson finder.config))

/-- How much an invocation reports. -/
def Invocation.level (invocation : Invocation) (values : Variables) : Verbosity :=
  Verbosity.choose invocation.verbose invocation.quiet (values.text? Variables.level)

/-- The line that says where the completions of a shell belong. -/
def installNotice (shell : Shell) : Text :=
  onLine ("# manpath completions ".toList ++ shell.name ++ " > ".toList ++ shell.target)

/-- The effect of an invocation.  Completions need no configuration; a query loads it first. -/
def execute (host : Host) (tree : FileTree) (env : Environment) (invocation : Invocation) :
    Traced Written :=
  match invocation.request with
  | .completions shell =>
    pure
      { output := host.completions shell
        notice := if invocation.quiet then [] else installNotice shell }
  | .query query => do
    let outcome ← (Finder.new invocation.options env .wildcards).load tree
    match outcome.failure? with
    | some failure => return .ofFailure (.resolving failure)
    | none => answer tree outcome.state invocation.locales query

/-! ## Calls -/

structure Exit where
  code : Nat
  output : Text
  errors : Text
  deriving DecidableEq, Repr

/-- A call that ends with a failure after something has been written. -/
def Exit.ofFailure (output errors : Text) (failure : CommandFailure) : Exit :=
  ⟨failure.exitCode, output, errors ++ failure.line⟩

/-- How a call ends whose reading of arguments did not come to its end. -/
def Exit.ofEnding (host : Host) : Ending → Exit
  | .usage fault => .ofFailure [] [] (.usage fault)
  | .help verb? => ⟨0, host.usage verb?, []⟩
  | .version => ⟨0, versionLine, []⟩

/-- How an invocation ends with environment variables and a tree of files.  The paths of configuration
    files in an invocation are any octets, which arguments that are texts cannot always spell. -/
def Invocation.run (host : Host) (tree : FileTree) (values : Variables) (invocation : Invocation) :
    Exit :=
  let written := execute host tree (Environment.ofVariables values host.home?) invocation
  let errors := Event.render (invocation.level values) written.events ++ written.value.notice
  match written.value.failure? with
  | none => ⟨0, written.value.output, errors⟩
  | some failure => .ofFailure written.value.output errors failure

/-- How a call with arguments, environment variables and a tree of files ends. -/
def run (tree : FileTree) (values : Variables) (arguments : List Text) (host : Host := {}) : Exit :=
  match Invocation.parse (values.value? Variables.systemFile) arguments with
  | .error ending => .ofEnding host ending
  | .ok invocation => invocation.run host tree values

end CommandLine

end ManualPages
