import ManualPages.Text.Basic

/-! # Locales

The name of a locale, `language_TERRITORY.CODESET@modifier`, and its parts.

* `Locale` — the four parts, each empty where the name has none.
* `Locale.parse`, `Locale.render` — from a name to its parts and back.
* `Locale.servedBy` — whether a directory named after another locale serves one.
-/

namespace ManualPages

/-- The parts of the name of a locale. -/
structure Locale where
  /-- The language, or the whole name where it is an alias. -/
  language : Text
  territory : Text := []
  codeset : Text := []
  modifier : Text := []
  deriving DecidableEq, Repr

namespace Locale

def marks : List Char := ['_', '.', '@']

/-- The characters before the first of `stops`, and the rest from there on. -/
def upTo (stops : List Char) (t : Text) : Text × Text :=
  (t.takeWhile (! stops.contains ·), t.dropWhile (! stops.contains ·))

/-- The part that `mark` introduces at the beginning of a text, up to the first of
    `stops`, and the rest.  Without the mark the part is empty and nothing is taken. -/
def part (mark : Char) (stops : List Char) : Text → Text × Text
  | [] => ([], [])
  | c :: rest => if c = mark then upTo stops rest else ([], c :: rest)

/-- The parts of a name.  A name that begins with a mark has no language of its own and
    is kept whole as one. -/
def parse (name : Text) : Locale :=
  let (language, rest) := upTo marks name
  if language.isEmpty then { language := name }
  else
    let (territory, rest) := part '_' ['.', '@'] rest
    let (codeset, rest) := part '.' ['@'] rest
    let (modifier, _) := part '@' [] rest
    { language, territory, codeset, modifier }

/-- A part with its mark, or nothing where the part is empty. -/
def marked (mark : Char) (t : Text) : Text := if t.isEmpty then [] else mark :: t

def render (locale : Locale) : Text :=
  locale.language ++ marked '_' locale.territory ++ marked '.' locale.codeset
    ++ marked '@' locale.modifier

/-- The two names of the locale whose pages are not translated. -/
def untranslatedNames : List Text := ["C".toList, "POSIX".toList]

/-- Whether the pages of a locale are the untranslated ones. -/
def isUntranslated (locale : Locale) : Bool := untranslatedNames.contains locale.language

/-- Whether a directory named after `candidate` serves a locale.  The languages are equal,
    and so are territory and modifier where the candidate has them. -/
def servedBy (locale candidate : Locale) : Bool :=
  locale.language = candidate.language
    && (candidate.territory.isEmpty || locale.territory = candidate.territory)
    && (candidate.modifier.isEmpty || locale.modifier = candidate.modifier)

end Locale

end ManualPages
