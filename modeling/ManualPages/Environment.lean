import ManualPages.FileTree.Lookup

/-! # The environment

The environment variables that searching depends on, read once into a value.

* `Variables` — the variables of a process, values as octets.
* `Environment` — what of them matters.
* `Environment.ofVariables` — reading the one from the other.
* `override?`, `systems?`, `userFile?` — the questions put to it.
-/

namespace ManualPages

/-! ## Variables of a process -/

abbrev Variables := List (Text × Octets)

namespace Variables

def value? (values : Variables) (name : Text) : Option Octets := values.lookup name

/-- The value of a variable as a text; a value that is none counts as missing. -/
def text? (values : Variables) (name : Text) : Option Text :=
  (values.value? name).bind Octets.decode?

/-- The search path to use in place of the configured one. -/
def manualPath : Text := "MANPATH".toList

def programPath : Text := "PATH".toList

def systems : Text := "SYSTEM".toList

def home : Text := "HOME".toList

/-- Set where the search path for programs is to be left out. -/
def disablePath : Text := "MAN_TEST_DISABLE_PATH".toList

/-- Set where the system-wide file is to be left out. -/
def disableSystemFile : Text := "MAN_TEST_DISABLE_SYSTEM_CONFIG".toList

def level : Text := "MANPATH_LOG_MODE".toList

def systemFile : Text := "MANPATH_SYSTEM_CONFIG".toList

end Variables

/-! ## What matters of them -/

structure Environment where
  /-- The search path to use in place of the configured one. -/
  manualPath : Option Text := none
  programPath : Option Text := none
  systems : Option Text := none
  home : Option Octets := none
  disablePath : Bool := false
  disableSystemFile : Bool := false
  deriving DecidableEq, Repr

namespace Environment

/-- Reads the variables.  The home directory need not be a text; where no variable names one, it is
    `home?`, what the system knows of the user.  The two that leave something out count as soon as
    they are set. -/
def ofVariables (values : Variables) (home? : Option Octets := none) : Environment where
  manualPath := values.text? Variables.manualPath
  programPath := values.text? Variables.programPath
  systems := values.text? Variables.systems
  home := (values.value? Variables.home).or home?
  disablePath := (values.value? Variables.disablePath).isSome
  disableSystemFile := (values.value? Variables.disableSystemFile).isSome

/-- The search path to use in place of the configured one, unless it is empty. -/
def override? (env : Environment) : Option Text := env.manualPath.filter (! ·.isEmpty)

def systems? (env : Environment) : Option Text := env.systems.filter (! ·.isEmpty)

/-- The name of the per-user file in the home directory. -/
def userFileName : Text := ".manpath".toList

def userFile? (env : Environment) : Option Octets :=
  env.home.map (Octets.join · (Octets.encode userFileName))

end Environment

end ManualPages
