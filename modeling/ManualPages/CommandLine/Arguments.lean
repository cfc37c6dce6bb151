import ManualPages.CommandLine.Grammar
import ManualPages.Text.Octets

/-! # Arguments

Reading the arguments of a call, left to right.  An option that takes a value from the
next argument, and an operand, stay pending until something else begins; only then is
their value looked at.

* `Given`, `Pending`, `Reading` — what has been read of one command.
* `Ending` — why reading ends before the last argument.
* `Reading.settle`, `readShorts`, `readLong`, `readArguments` — the steps of reading.
* `finish` — what is demanded when the arguments of a command have been read.
* `Query`, `Request`, `Invocation`, `Invocation.parse` — what a call asks for.
-/

namespace ManualPages

namespace CommandLine

/-! ## State of reading -/

structure Given where
  switches : List Switch := []
  settings : List (Setting × Text) := []
  operand : Option Text := none

def Given.has (given : Given) (switch : Switch) : Bool := given.switches.contains switch

def Given.value? (given : Given) (setting : Setting) : Option Text := given.settings.lookup setting

/-- What has been read but not looked at. -/
inductive Pending where
  | nothing
  | waiting (setting : Setting)
  | setting (setting : Setting) (value : Text)
  | operand (value : Text)

/-- The state of reading the arguments of one command. -/
structure Reading where
  given : Given := {}
  pending : Pending := .nothing

/-- Whether the next argument may be the value of an option. -/
def Reading.isWaiting (reading : Reading) : Bool :=
  match reading.pending with
  | .waiting _ => true
  | _ => false

def Reading.hasOperand (reading : Reading) : Bool :=
  match reading.pending with
  | .operand _ => true
  | _ => reading.given.operand.isSome

/-- Why reading ends before the last argument. -/
inductive Ending where
  | usage (fault : UsageError)
  /-- Help is asked for, on a command or on the whole program. -/
  | help (verb? : Option Verb)
  | version
  deriving DecidableEq, Repr

/-! ## Values -/

/-- What is wrong with a value that is not among those allowed. -/
def rejected (value argument : Text) : UsageError :=
  if value.isEmpty then .valueRequired argument else .invalidValue value argument

/-- What is wrong with the value of an option, if anything. -/
def faultOfSetting? (setting : Setting) (value : Text) : Option UsageError :=
  let argument := (Choice.setting setting).display
  match setting with
  | .format => if (Format.ofName? value).isSome then none else some (rejected value argument)
  | .scope => if (OwnerFilter.ofName? value).isSome then none else some (rejected value argument)
  | .userFile | .systemFile => if value.isEmpty then some (.valueRequired argument) else none
  | .systems | .locales => none

/-- What is wrong with the operand of a command, if anything. -/
def faultOfOperand? (verb? : Option Verb) (value : Text) : Option UsageError :=
  if verb? = some .completions ∧ (Shell.ofName? value).isNone then
    some (rejected value "<SHELL>".toList)
  else none

namespace Reading

def record (reading : Reading) (setting : Setting) (value : Text) : Except Ending Reading :=
  if (reading.given.value? setting).isSome then
    .error (.usage (.repeated (Choice.setting setting).display))
  else
    match faultOfSetting? setting value with
    | some fault => .error (.usage fault)
    | none =>
      let settings := reading.given.settings ++ [(setting, value)]
      .ok { given := { reading.given with settings }, pending := .nothing }

def settle (verb? : Option Verb) (reading : Reading) : Except Ending Reading :=
  match reading.pending with
  | .nothing => .ok reading
  | .waiting setting => .error (.usage (.valueRequired (Choice.setting setting).display))
  | .setting setting value => reading.record setting value
  | .operand value =>
    match faultOfOperand? verb? value with
    | some fault => .error (.usage fault)
    | none =>
      .ok { given := { reading.given with operand := some value }, pending := .nothing }

def turnOn (verb? : Option Verb) (reading : Reading) (switch : Switch) : Except Ending Reading := do
  let reading ← reading.settle verb?
  match switch with
  | .help => .error (.help verb?)
  | .version => .error .version
  | switch =>
    if reading.given.has switch then
      .error (.usage (.repeated (Choice.switch switch).display))
    else
      let switches := reading.given.switches ++ [switch]
      .ok { reading with given := { reading.given with switches } }

end Reading

/-! ## Reading -/

/-- Reads the short options in one argument.  The first that takes a value takes the rest
    of the argument, without an equals sign before it, or else the next argument. -/
def readShorts (verb? : Option Verb) (reading : Reading) : Text → Except Ending Reading
  | [] => .ok reading
  | c :: rest =>
    match Choice.ofShort? verb? c with
    | none => .error (.usage (.unexpectedArgument ['-', c]))
    | some (.switch switch) => do
      let reading ← reading.turnOn verb? switch
      readShorts verb? reading rest
    | some (.setting setting) => do
      let reading ← reading.settle verb?
      match rest with
      | [] => .ok { reading with pending := .waiting setting }
      | '=' :: value => reading.record setting value
      | value => reading.record setting value

/-- The name in a long option, and the value after its first equals sign. -/
def splitValue (argument : Text) : Text × Option Text :=
  match argument.dropWhile (· ≠ '=') with
  | [] => (argument, none)
  | _ :: value => (argument.takeWhile (· ≠ '='), some value)

def readLong (verb? : Option Verb) (reading : Reading) (argument : Text) :
    Except Ending Reading :=
  let (name, value?) := splitValue argument
  match Choice.ofLong? verb? name, value? with
  | none, _ => .error (.usage (.unexpectedArgument ('-' :: '-' :: name)))
  | some (.switch switch), some value =>
    .error (.usage (.unexpectedValue value (Choice.switch switch).display))
  | some (.switch switch), none => reading.turnOn verb? switch
  | some (.setting setting), some value => do
    let reading ← reading.settle verb?
    reading.record setting value
  | some (.setting setting), none => do
    let reading ← reading.settle verb?
    .ok { reading with pending := .waiting setting }

/-- Reads an argument that is no option.  `trailing` says that options are over. -/
def readOperand (verb? : Option Verb) (trailing : Bool) (reading : Reading) (argument : Text) :
    Except Ending Reading :=
  match verb? with
  | none =>
    if trailing && isVerb argument then .error (.usage (.unexpectedArgument argument))
    else .error (.usage (.unknownVerb argument))
  | some verb =>
    if verb.operand?.isSome && ! reading.hasOperand then do
      let reading ← reading.settle verb?
      .ok { reading with pending := .operand argument }
    else .error (.usage (.unexpectedArgument argument))

/-- Reads what follows the word for help: at most one command. -/
def readHelp : List Text → Ending
  | [] => .help none
  | [word] =>
    if isVerb word then .help (Verb.ofName? word) else .usage (.unknownVerb word)
  | word :: next :: _ =>
    if isVerb word then .usage (.unknownVerb next) else .usage (.unknownVerb word)

/-- Reads the arguments of a command, or those before any.  In the second case reading
    stops at a command, which is returned with the arguments after it. -/
def readArguments (verb? : Option Verb) (trailing : Bool) (reading : Reading) :
    List Text → Except Ending (Reading × Option (Verb × List Text))
  | [] => .ok (reading, none)
  | argument :: rest =>
    if trailing then do
      let reading ← readOperand verb? true reading argument
      readArguments verb? true reading rest
    else if verb?.isNone && ! reading.isWaiting && argument = helpWord then
      .error (readHelp rest)
    else if verb?.isNone && ! reading.isWaiting && (Verb.ofName? argument).isSome then
      .ok (reading, (Verb.ofName? argument).map fun verb => (verb, rest))
    else
      match argument with
      | ['-', '-'] => readArguments verb? true reading rest
      | '-' :: '-' :: long => do
        let reading ← readLong verb? reading long
        readArguments verb? false reading rest
      | '-' :: c :: more => do
        let reading ← readShorts verb? reading (c :: more)
        readArguments verb? false reading rest
      | value => do
        match reading.pending with
        | .waiting setting =>
          readArguments verb? false { reading with pending := .setting setting value } rest
        | _ =>
          let reading ← readOperand verb? false reading value
          readArguments verb? false reading rest

/-- What a command has been given once its arguments have been read.  The system-wide
    file may also be named in the environment, but not by an empty value. -/
def finish (verb? : Option Verb) (systemFile? : Option Octets) (reading : Reading) :
    Except Ending Given := do
  let reading ← reading.settle verb?
  let given := reading.given
  if (given.value? .systemFile).isNone && systemFile? = some [] then
    .error (.usage (.valueRequired (Choice.setting .systemFile).display))
  else if ((verb?.bind Verb.operand?).isSome && given.operand.isNone) then
    .error (.usage .operandMissing)
  else .ok given

/-! ## Invocations -/

inductive Query where
  | searchPath (cachePaths allMapped : Bool)
  | list (format : Format)
  | sections
  | define (name : Text) (allowUser : Bool)
  | cachePath (name : Text) (scope : OwnerFilter)
  | isGlobal (directory : Text) (invert : Bool)
  | showConfig (format : Format)
  deriving DecidableEq, Repr

inductive Request where
  | query (query : Query)
  | completions (shell : Shell)
  deriving DecidableEq, Repr

/-- What a call asks for, and with which options.  Paths of configuration files are octets, which need
    not be a text. -/
structure Invocation where
  request : Request
  systems : Option Text
  locales : Option Text
  userFile : Option Octets
  systemFile : Option Octets
  verbose : Bool
  quiet : Bool
  deriving DecidableEq, Repr

/-- The form of a listing that a command has been given. -/
def Given.format (given : Given) : Format :=
  ((given.value? .format).bind Format.ofName?).getD .text

/-- What a command asks for with what it has been given. -/
def Verb.request (verb : Verb) (given : Given) : Request :=
  let operand := given.operand.getD []
  match verb with
  | .list => .query (.list given.format)
  | .sections => .query .sections
  | .define => .query (.define operand (! given.has .noUser))
  | .cachePath =>
    .query (.cachePath operand (((given.value? .scope).bind OwnerFilter.ofName?).getD .all))
  | .isGlobal => .query (.isGlobal operand (given.has .invert))
  | .showConfig => .query (.showConfig given.format)
  | .completions => .completions ((Shell.ofName? operand).getD .bash)

namespace Invocation

/-- The invocation that options before a command and those after it make up.  An option
    after the command wins over the same one before it, and both over the environment. -/
def combine (systemFile? : Option Octets) (request : Request) (before after : Given) :
    Invocation :=
  let value? (setting : Setting) := (after.value? setting).or (before.value? setting)
  let has (switch : Switch) := before.has switch || after.has switch
  { request
    systems := value? .systems
    locales := value? .locales
    userFile := (value? .userFile).map Octets.encode
    systemFile := ((value? .systemFile).map Octets.encode).or systemFile?
    verbose := has .verbose
    quiet := has .quiet }

/-- Reads the arguments of a call.  `systemFile?` is the system-wide file that the
    environment names. -/
def parse (systemFile? : Option Octets) (arguments : List Text) : Except Ending Invocation := do
  let (reading, next?) ← readArguments none false {} arguments
  match next? with
  | none =>
    let given ← finish none systemFile? reading
    let request := .query (.searchPath (given.has .cachePaths) (given.has .allMapped))
    return combine systemFile? request given {}
  | some (verb, rest) =>
    let (inner, _) ← readArguments (some verb) false {} rest
    let after ← finish (some verb) systemFile? inner
    let before ← finish none systemFile? reading
    return combine systemFile? (verb.request after) before after

end Invocation

end CommandLine

end ManualPages
