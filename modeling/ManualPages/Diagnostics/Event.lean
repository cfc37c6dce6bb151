import ManualPages.Catalog.Subject
import ManualPages.Diagnostics.Verbosity
import ManualPages.FileTree.Basic
import ManualPages.Wildcard.Pattern

/-! # Events

What happens on the way to an answer and is worth reporting.  The wording of every
event is here and nowhere else.

* `Event` — warnings about single directories, and the trace of every lookup.
* `Event.severity`, `Event.message` — how grave an event is, and what is said of it.
* `Event.render` — what a level writes for a sequence of events.
-/

namespace ManualPages

/-- How the search path from the environment is combined with the configured one. -/
inductive Combination where
  | prepending
  | appending
  | inserting
  | ignoring
  deriving DecidableEq, Repr

def Combination.name : Combination → Text
  | .prepending => "prepending".toList
  | .appending => "appending".toList
  | .inserting => "inserting".toList
  | .ignoring => "ignoring".toList

/-- Something that happens on the way to an answer. -/
inductive Event where
  /-- A hierarchy for the older cache layout lies elsewhere. -/
  | outsideLegacyRoot (directory root : Text)
  /-- A path that should be a directory is something else. -/
  | notDirectory (path : Text)
  | mandatoryMissing (path : Text)
  | programPathUnset
  | programPathEmpty
  /-- The search path from the environment is in force. -/
  | overrideInForce (how : Combination) (systemFile : Text)
  | segmentsDropped (existing candidate reduced : Text)
  | recordAdded (key content : Text) (subject : Subject)
  | invalidPattern (pattern : Text) (error : Wildcard.PatternError)
  | listing (path : Text)
  | adding (path : Text)
  /-- A directory is in the list of hierarchies already. -/
  | alreadyListed (path : Text)
  | unreadable (path : Text) (cause : LookupError)
  /-- A path could not be examined while directories were being derived. -/
  | cannotExamine (path : Text) (cause : LookupError)
  /-- An entry leads to a directory that is listed already. -/
  | duplicateRemoved (entry : Text) (position : Nat) (earlier : Text) (earlierPosition : Nat)
  | finalPath (path : Text)
  | localesFor (path : Text)
  | locale (name : Text)
  | noSystemDirectory
  | readingFile (path : Text)
  | userFileSkipped (path : Text) (cause : ReadError)
  | systemFileSkipped (path : Text) (cause : ReadError)
  | mandatoryDeclared (hierarchy : Text)
  /-- The hierarchy of a directory of programs is declared. -/
  | programMapDeclared (programs hierarchy : Text)
  | cacheMapDeclared (owner : Owner) (hierarchy cache : Text)
  | definitionDeclared (name value : Text)
  | sectionDeclared (name : Text)
  | programs (path : Text)
  | programsMapped (path : Text)
  /-- A directory of programs has a hierarchy beside or below it. -/
  | programsBeside (path hierarchy : Text)
  | programsUnmapped (path : Text)
  | addingMandatory
  deriving DecidableEq, Repr

namespace Event

def severity : Event → Severity
  | .outsideLegacyRoot .. | .notDirectory .. | .mandatoryMissing .. | .programPathUnset
  | .programPathEmpty | .overrideInForce .. => .warning
  | _ => .debug

/-- A text in the quotes that the trace of records uses. -/
def quoted (t : Text) : Text := '\x60' :: t ++ ['\'']

def message : Event → Text
  | .outsideLegacyRoot directory root => directory ++ " does not begin with ".toList ++ root
  | .notDirectory path => path ++ " isn't a directory".toList
  | .mandatoryMissing path => "mandatory directory ".toList ++ path ++ " doesn't exist".toList
  | .programPathUnset => "$PATH not set".toList
  | .programPathEmpty => "empty $PATH".toList
  | .overrideInForce how systemFile =>
    "$MANPATH set, ".toList ++ how.name ++ [' '] ++ systemFile
  | .segmentsDropped existing candidate reduced =>
    existing ++ [':'] ++ candidate ++ " reduced to ".toList ++ reduced
  | .recordAdded key content subject =>
    quoted key ++ ['\t'] ++ quoted content ++ ['\t'] ++ quoted subject.label
  | .invalidPattern pattern error =>
    "invalid pattern ".toList ++ pattern ++ ": ".toList ++ error.message
  | .listing path => "adding ".toList ++ path ++ " to manpathlist".toList
  | .adding path => "adding ".toList ++ path ++ " to manpath".toList
  | .alreadyListed path => path ++ " is already in the manpath".toList
  | .unreadable path cause => "warning: ".toList ++ path ++ ": ".toList ++ cause.kind
  | .cannotExamine path cause => "can't stat ".toList ++ path ++ ": ".toList ++ cause.kind
  | .duplicateRemoved entry position earlier earlierPosition =>
    "Removing duplicate manpath entry ".toList ++ entry ++ " (".toList ++ Text.ofNat position
      ++ ") -> ".toList ++ earlier ++ " (".toList ++ Text.ofNat earlierPosition ++ [')']
  | .finalPath path => "final search path = ".toList ++ path
  | .localesFor path => "add_nls_manpaths(): processing ".toList ++ path
  | .locale name => "checking for locale ".toList ++ name
  | .noSystemDirectory => "add_system_manpath(): internal manpath equates to NULL".toList
  | .readingFile path => "From the config file ".toList ++ path ++ [':']
  | .userFileSkipped path cause =>
    "skipping user config ".toList ++ path ++ ": ".toList ++ cause.message
  | .systemFileSkipped path cause =>
    "can't open ".toList ++ path ++ "; continuing anyway: ".toList ++ cause.message
  | .mandatoryDeclared hierarchy => "Mandatory mandir ".toList ++ quoted hierarchy ++ ['.']
  | .programMapDeclared directory hierarchy =>
    "Path ".toList ++ quoted directory ++ " mapped to mandir ".toList ++ quoted hierarchy ++ ['.']
  | .cacheMapDeclared owner hierarchy cache =>
    (match owner with
      | .user => "User".toList
      | .system => "Global".toList)
      ++ " mandir ".toList ++ quoted hierarchy ++ ", catdir ".toList ++ quoted cache ++ ['.']
  | .definitionDeclared name value =>
    "Defined ".toList ++ quoted name ++ " as ".toList ++ quoted value ++ ['.']
  | .sectionDeclared name => "Added section ".toList ++ quoted name ++ ['.']
  | .programs path => "path directory ".toList ++ path
  | .programsMapped path => path ++ " is in the config file".toList
  | .programsBeside path hierarchy =>
    path ++ " is not in the config file but has ".toList ++ hierarchy
  | .programsUnmapped path =>
    path ++ " is not in the config file and has no man subdirectory".toList
  | .addingMandatory => "adding mandatory man directories".toList

def render (level : Verbosity) (events : List Event) : Text :=
  events.flatMap fun event => level.write event.severity event.message

end Event

end ManualPages
