import ManualPages.Catalog.Subject

/-! # The grammar of the command line

What may stand on the command line, and what is said of what may not.

* `Verb` — the commands, and what operand each requires.
* `Switch`, `Setting`, `Choice` — options without and with a value.
* `Choice.find?` — the option that a short or long name is, where it is allowed.
* `Format`, `Shell` — the values that some options and operands are limited to.
* `UsageError` — what can be wrong with the arguments.
-/

namespace ManualPages

namespace CommandLine

/-! ## Commands -/

/-- A command.  Without one the search path is shown. -/
inductive Verb where
  | list
  | sections
  | define
  | cachePath
  | isGlobal
  | showConfig
  | completions
  deriving DecidableEq, Repr

namespace Verb

def name : Verb → Text
  | .list => "list".toList
  | .sections => "sections".toList
  | .define => "define".toList
  | .cachePath => "catpath".toList
  | .isGlobal => "is-global".toList
  | .showConfig => "show-config".toList
  | .completions => "completions".toList

def summary : Verb → Text
  | .list => "List the search directories".toList
  | .sections => "Show the section search order".toList
  | .define => "Show a configuration definition".toList
  | .cachePath => "Show the cache path for a manual page directory".toList
  | .isGlobal => "Check whether a directory is a global manual directory".toList
  | .showConfig => "Show the loaded configuration".toList
  | .completions => "Generate shell completion scripts".toList

def all : List Verb :=
  [.list, .sections, .define, .cachePath, .isGlobal, .showConfig, .completions]

def ofName? (word : Text) : Option Verb := all.find? (·.name = word)

/-- What the operand of a command stands for, for the commands that require one. -/
def operand? : Verb → Option Text
  | .define | .cachePath => some "<NAME>".toList
  | .isGlobal => some "<DIR>".toList
  | .completions => some "<SHELL>".toList
  | .list | .sections | .showConfig => none

end Verb

def helpWord : Text := "help".toList

/-- Whether a word is a command, that for help included. -/
def isVerb (word : Text) : Bool := word = helpWord || (Verb.ofName? word).isSome

/-! ## Options -/

inductive Switch where
  | cachePaths
  /-- Start from all hierarchies that have a cache directory. -/
  | allMapped
  | verbose
  | quiet
  | noUser
  | invert
  | help
  | version
  deriving DecidableEq, Repr

inductive Setting where
  | systems
  | locales
  | userFile
  | systemFile
  | format
  | scope
  deriving DecidableEq, Repr

inductive Choice where
  | switch (switch : Switch)
  | setting (setting : Setting)
  deriving DecidableEq, Repr

namespace Choice

def all : List Choice :=
  [.switch .cachePaths, .switch .allMapped, .setting .systems, .setting .locales,
   .setting .userFile, .setting .systemFile, .switch .verbose, .switch .quiet,
   .switch .noUser, .switch .invert, .setting .format, .setting .scope,
   .switch .help, .switch .version]

/-- The long names of an option, the one it is known by first. -/
def longNames : Choice → List Text
  | .switch .cachePaths => ["catpath".toList]
  | .switch .allMapped => ["global".toList]
  | .switch .verbose => ["debug".toList, "verbose".toList]
  | .switch .quiet => ["quiet".toList]
  | .switch .noUser => ["no-user".toList]
  | .switch .invert => ["not".toList]
  | .switch .help => ["help".toList]
  | .switch .version => ["version".toList]
  | .setting .systems => ["systems".toList]
  | .setting .locales => ["locales".toList]
  | .setting .userFile => ["config-file".toList]
  | .setting .systemFile => ["system-config-file".toList]
  | .setting .format => ["format".toList]
  | .setting .scope => ["scope".toList]

def shortName? : Choice → Option Char
  | .switch .cachePaths => some 'c'
  | .switch .allMapped => some 'g'
  | .switch .verbose => some 'd'
  | .switch .quiet => some 'q'
  | .switch .help => some 'h'
  | .switch .version => some 'V'
  | .setting .systems => some 'm'
  | .setting .userFile => some 'C'
  | _ => none

def valueName? : Choice → Option Text
  | .switch _ => none
  | .setting .systems => some "<SYSTEM[,...]>".toList
  | .setting .locales => some "<LOCALES>".toList
  | .setting .userFile | .setting .systemFile => some "<FILE>".toList
  | .setting .format => some "<FORMAT>".toList
  | .setting .scope => some "<SCOPE>".toList

/-- How an option is named in what is said to the user. -/
def display (choice : Choice) : Text :=
  "--".toList ++ (choice.longNames.headD [])
    ++ match choice.valueName? with
      | some value => ' ' :: value
      | none => []

def summary : Choice → Text
  | .switch .cachePaths => "Show the relative catpaths instead of the manpath".toList
  | .switch .allMapped => "Show the manpath of all globally mapped directories".toList
  | .switch .verbose => "Print debugging information".toList
  | .switch .quiet => "Suppress warnings".toList
  | .switch .noUser => "Ignore definitions from the user configuration file".toList
  | .switch .invert => "Invert the check (fail if the directory is global)".toList
  | .switch .help => "Print help".toList
  | .switch .version => "Print version".toList
  | .setting .systems => "Use manual pages from other systems".toList
  | .setting .locales => "Add locale subdirectories for a colon-separated locale list".toList
  | .setting .userFile => "Use this user configuration file".toList
  | .setting .systemFile => "Use this system configuration file".toList
  | .setting .format => "Output format".toList
  | .setting .scope => "Which MANDB_MAP records to consult".toList

/-- Whether an option may stand after a command, or before any. -/
def allowed (verb? : Option Verb) : Choice → Bool
  | .setting .systems | .setting .locales | .setting .userFile | .setting .systemFile
  | .switch .verbose | .switch .quiet | .switch .help => true
  | .switch .cachePaths | .switch .allMapped | .switch .version => verb?.isNone
  | .switch .noUser => verb? = some .define
  | .switch .invert => verb? = some .isGlobal
  | .setting .format => verb? = some .list || verb? = some .showConfig
  | .setting .scope => verb? = some .cachePath

/-- The options that may stand after a command, or before any. -/
def allowedFor (verb? : Option Verb) : List Choice := all.filter (·.allowed verb?)

def ofLong? (verb? : Option Verb) (name : Text) : Option Choice :=
  (allowedFor verb?).find? (·.longNames.contains name)

def ofShort? (verb? : Option Verb) (c : Char) : Option Choice :=
  (allowedFor verb?).find? (·.shortName? = some c)

end Choice

/-! ## Limited values -/

inductive Format where
  | text
  | json
  deriving DecidableEq, Repr

def Format.ofName? (word : Text) : Option Format :=
  if word.lower = "text".toList then some .text
  else if word.lower = "json".toList then some .json
  else none

/-- A shell that completions can be written for. -/
inductive Shell where
  | bash
  | elvish
  | fish
  | powershell
  | zsh
  deriving DecidableEq, Repr

namespace Shell

def name : Shell → Text
  | .bash => "bash".toList
  | .elvish => "elvish".toList
  | .fish => "fish".toList
  | .powershell => "powershell".toList
  | .zsh => "zsh".toList

def ofName? (word : Text) : Option Shell :=
  [.bash, .elvish, .fish, .powershell, .zsh].find? (·.name = word)

def target : Shell → Text
  | .bash => "~/.local/share/bash-completion/completions/manpath".toList
  | .elvish => "~/.config/elvish/lib/manpath.elv".toList
  | .fish => "~/.config/fish/completions/manpath.fish".toList
  | .powershell => "$PROFILE".toList
  | .zsh => "~/.zsh/completions/_manpath".toList

end Shell

/-! ## Faults -/

/-- What can be wrong with the arguments. -/
inductive UsageError where
  /-- A value is not among those an option or operand is limited to. -/
  | invalidValue (value argument : Text)
  | valueRequired (argument : Text)
  | unexpectedArgument (argument : Text)
  | unknownVerb (word : Text)
  | operandMissing
  | repeated (argument : Text)
  /-- A value is given to an option that takes none. -/
  | unexpectedValue (value argument : Text)
  deriving DecidableEq, Repr

def quoted (t : Text) : Text := '\'' :: t ++ ['\'']

def UsageError.message : UsageError → Text
  | .invalidValue value argument =>
    "invalid value ".toList ++ quoted value ++ " for ".toList ++ quoted argument
  | .valueRequired argument =>
    "a value is required for ".toList ++ quoted argument ++ " but none was supplied".toList
  | .unexpectedArgument argument =>
    "unexpected argument ".toList ++ quoted argument ++ " found".toList
  | .unknownVerb word => "unrecognized subcommand ".toList ++ quoted word
  | .operandMissing => "the following required arguments were not provided:".toList
  | .repeated argument =>
    "the argument ".toList ++ quoted argument ++ " cannot be used multiple times".toList
  | .unexpectedValue value argument =>
    "unexpected value ".toList ++ quoted value ++ " for ".toList ++ quoted argument
      ++ " found; no more were expected".toList

end CommandLine

end ManualPages
