import ManualPages.Text.Basic

/-! # Levels of reporting

How much is reported while search paths are resolved, and which lines that lets through.

* `Severity` — what a line is about, from failures down to the finest trace.
* `Verbosity` — quiet, normal or verbose, with its name and the names it is read from.
* `Verbosity.shows` — whether lines of a severity are written.
* `Verbosity.line` — a line as it is written.
-/

namespace ManualPages

/-- What a reported line is about, the gravest first. -/
inductive Severity where
  | error
  | warning
  | info
  | debug
  | trace
  deriving DecidableEq, Repr

/-- The place of a severity in the order from gravest to finest. -/
def Severity.rank : Severity → Nat
  | .error => 1
  | .warning => 2
  | .info => 3
  | .debug => 4
  | .trace => 5

inductive Verbosity where
  | quiet
  | normal
  | verbose
  deriving DecidableEq, Repr

namespace Verbosity

/-- The place of a level in the order from least to most. -/
def rank : Verbosity → Nat
  | .quiet => 0
  | .normal => 1
  | .verbose => 2

def compare (a b : Verbosity) : Ordering := Ord.compare a.rank b.rank

def name : Verbosity → Text
  | .quiet => "quiet".toList
  | .normal => "normal".toList
  | .verbose => "verbose".toList

/-- The level with a name in any letter case; `debug` is another name of the last one. -/
def ofName? (t : Text) : Option Verbosity :=
  let word := t.lower
  if word = "quiet".toList then some .quiet
  else if word = "normal".toList then some .normal
  else if word = "verbose".toList ∨ word = "debug".toList then some .verbose
  else none

/-- What is said of a text that names no level. -/
def unknownName (t : Text) : Text := "invalid log level: ".toList ++ t

def finest : Verbosity → Severity
  | .quiet => .error
  | .normal => .warning
  | .verbose => .debug

def shows (level : Verbosity) (severity : Severity) : Bool := severity.rank ≤ level.finest.rank

/-- The name of the program, which stands before what concerns its user. -/
def programName : Text := "manpath".toList

/-- A line of a severity.  Failures and warnings name the program, the rest does not. -/
def line (severity : Severity) (message : Text) : Text :=
  match severity with
  | .error | .warning => programName ++ ": ".toList ++ message ++ ['\n']
  | .info | .debug | .trace => message ++ ['\n']

/-- What a level writes for a message: its line, or nothing. -/
def write (level : Verbosity) (severity : Severity) (message : Text) : Text :=
  if level.shows severity then line severity message else []

/-- The level that two switches and a setting ask for: verbose wins over quiet, either
    wins over the setting, and a setting that names no level counts as missing. -/
def choose (verbose quiet : Bool) (setting? : Option Text) : Verbosity :=
  if verbose then .verbose
  else if quiet then .quiet
  else (setting?.bind ofName?).getD .normal

end Verbosity

end ManualPages
