import ManualPages.CommandLine.Grammar
import ManualPages.Diagnostics.Verbosity
import ManualPages.Text.Octets

/-! # Help and completions

Texts about the command line that are made from its grammar.  Nothing depends on what they say, and
a host may have others.

* `usage` — how a command, or the whole program, is called.
* `versionLine` — the version of the program.
* `completions` — a script that completes commands and options in a shell.
* `Host` — what a call finds besides its arguments, variables and files.
-/

namespace ManualPages

namespace CommandLine

def about : Text := "Determine the search path for manual pages".toList

def versionLine : Text := Verbosity.programName ++ " 0.1.0\n".toList

/-- A name, padded to a column, and a summary on a line. -/
def row (name summary : Text) : Text :=
  ' ' :: ' ' :: name ++ List.replicate (34 - name.length) ' ' ++ ' ' :: summary ++ ['\n']

def optionNames (choice : Choice) : Text :=
  match choice.shortName? with
  | some c => '-' :: c :: ',' :: ' ' :: choice.display
  | none => "    ".toList ++ choice.display

/-- The rows of the options that may stand after a command, or before any. -/
def optionRows (verb? : Option Verb) : Text :=
  (Choice.allowedFor verb?).flatMap fun choice => row (optionNames choice) choice.summary

def usage : Option Verb → Text
  | none =>
    about ++ "\n\nUsage: manpath [OPTIONS] [COMMAND]\n\nCommands:\n".toList
      ++ (Verb.all.flatMap fun verb => row verb.name verb.summary)
      ++ "\nOptions:\n".toList ++ optionRows none
  | some verb =>
    let operand :=
      match verb.operand? with
      | some operand => ' ' :: operand
      | none => []
    verb.summary ++ "\n\nUsage: manpath ".toList ++ verb.name ++ " [OPTIONS]".toList ++ operand
      ++ "\n\nOptions:\n".toList ++ optionRows (some verb)

def spaced (words : List Text) : Text := [' '].intercalate words

/-- The words that can stand first: commands and long options. -/
def firstWords : List Text :=
  Verb.all.map Verb.name
    ++ (Choice.allowedFor none).map fun choice => '-' :: '-' :: choice.longNames.headD []

/-- A script that completes commands and options in a shell. -/
def completions (shell : Shell) : Text :=
  let words := spaced firstWords
  match shell with
  | .bash => "complete -W \"".toList ++ words ++ "\" manpath\n".toList
  | .zsh => "#compdef manpath\ncompadd -- ".toList ++ words ++ ['\n']
  | .fish => "complete -c manpath -a \"".toList ++ words ++ "\"\n".toList
  | .elvish =>
    "set edit:completion:arg-completer[manpath] = ".toList
      ++ '\x7b' :: "|@words| put ".toList ++ words ++ " \x7d\n".toList
  | .powershell =>
    "Register-ArgumentCompleter -Native -CommandName 'manpath' -ScriptBlock ".toList
      ++ '\x7b' :: " -split '".toList ++ words ++ "' \x7d\n".toList

/-- What a call finds besides its arguments, variables and files. -/
structure Host where
  /-- The home directory of the user, for want of a variable that names one. -/
  home? : Option Octets := none
  /-- How a command, or the whole program, is called. -/
  usage : Option Verb → Text := usage
  /-- A script that completes commands and options in a shell. -/
  completions : Shell → Text := completions

end CommandLine

end ManualPages
