import ManualPages.Text.Blank
import ManualPages.Text.Numeral

/-! # Declarations

A line of a configuration file is blank, a comment, an ignored switch, or a declaration:
a keyword and its arguments, divided by white space.

* `Declaration` — what a line can ask for.
* `Keyword` — the words that begin a declaration with arguments, and what each requires.
* `DeclarationError` — why a line is not understood.
* `Declaration.parse` — reading one line.
-/

namespace ManualPages

/-! ## Declarations and their faults -/

/-- Where the formatted pages of a hierarchy are kept. -/
inductive CacheTarget where
  | beside
  | legacy
  | directory (path : Text)
  deriving DecidableEq, Repr

/-- Which of the three page widths is meant. -/
inductive Width where
  /-- The least width at which pages are kept formatted. -/
  | least
  /-- The greatest width at which pages are kept formatted. -/
  | greatest
  | fixed
  deriving DecidableEq, Repr

/-- What a line of a configuration file asks for. -/
inductive Declaration where
  | noCache
  | mandatory (hierarchy : Text)
  /-- Search a hierarchy for the programs of a directory. -/
  | programMap (programs hierarchy : Text)
  | cacheMap (hierarchy : Text) (target : CacheTarget)
  | define (name value : Text)
  | sections (names : List Text)
  | width (which : Width) (value : Int)
  deriving DecidableEq, Repr

/-- A word that begins a declaration with arguments. -/
inductive Keyword where
  | mandatory
  | programMap
  | cacheMap
  | define
  | sections
  | width (which : Width)
  deriving DecidableEq, Repr

namespace Keyword

def name : Keyword → Text
  | .mandatory => "MANDATORY_MANPATH".toList
  | .programMap => "MANPATH_MAP".toList
  | .cacheMap => "MANDB_MAP".toList
  | .define => "DEFINE".toList
  | .sections => "SECTION".toList
  | .width .least => "MINCATWIDTH".toList
  | .width .greatest => "MAXCATWIDTH".toList
  | .width .fixed => "CATWIDTH".toList

def requirement : Keyword → Text
  | .mandatory => "a directory".toList
  | .programMap => "a path and a manual directory".toList
  | .cacheMap => "a manual directory".toList
  | .define => "a name".toList
  | .sections => "at least one section".toList
  | .width _ => "an integer".toList

def all : List Keyword :=
  [.mandatory, .programMap, .cacheMap, .define, .sections,
   .width .least, .width .greatest, .width .fixed]

def pluralSections : Text := "SECTIONS".toList

def ofWord? (word : Text) : Option Keyword :=
  if word = pluralSections then some .sections else all.find? (·.name = word)

end Keyword

inductive DeclarationError where
  | unknown (line : Text)
  | missing (keyword : Keyword)
  /-- A width is no integer, or none of 32 bits. -/
  | notInteger (which : Width) (word : Text)
  deriving DecidableEq, Repr

/-- What is said of a line that is not understood. -/
def DeclarationError.message : DeclarationError → Text
  | .unknown line => "can't parse directory list `".toList ++ line ++ ['\'']
  | .missing keyword => keyword.name ++ " requires ".toList ++ keyword.requirement
  | .notInteger which word =>
    (Keyword.width which).name ++ " expects an integer, got `".toList ++ word ++ ['\'']

/-! ## Reading a line -/

namespace Declaration

def noCacheWord : Text := "NOCACHE".toList

def switchOff : Text := "NO".toList

def ignoredWord : Text := "MANBIN".toList

def legacyWord : Text := "FSSTND".toList

def targetOf : Option Text → CacheTarget
  | none => .beside
  | some word => if word = legacyWord then .legacy else .directory word

/-- The declaration that a keyword makes of the text after it.  Words that are not needed
    are passed over; the value of a definition is the rest of the line. -/
def ofKeyword (keyword : Keyword) (rest : Text) : Except DeclarationError Declaration :=
  match keyword, rest.words with
  | .mandatory, hierarchy :: _ => .ok (.mandatory hierarchy)
  | .programMap, programs :: hierarchy :: _ => .ok (.programMap programs hierarchy)
  | .cacheMap, hierarchy :: more => .ok (.cacheMap hierarchy (targetOf more.head?))
  | .define, name :: _ =>
    .ok (.define name (Text.trimStart (Text.splitWord (Text.trimStart rest)).2))
  | .sections, name :: more => .ok (.sections (name :: more))
  | .width which, word :: _ =>
    match Text.width? word with
    | some value => .ok (.width which value)
    | none => .error (.notInteger which word)
  | keyword, _ => .error (.missing keyword)

/-- Reads a line.  Blank lines, comments and switches without effect ask for nothing. -/
def parse (line : Text) : Except DeclarationError (Option Declaration) :=
  let line := Text.trimStart line
  if line = [] ∨ line.head? = some '#' then .ok none
  else if noCacheWord.isPrefixOf line then .ok (some .noCache)
  else if switchOff.isPrefixOf line then .ok none
  else
    let (word, rest) := Text.splitWord line
    if word = ignoredWord then .ok none
    else
      match Keyword.ofWord? word with
      | some keyword => (ofKeyword keyword rest).map some
      | none => .error (.unknown (Text.trimEnd line))

end Declaration

end ManualPages
