import ManualPages.FileTree.Lookup
import ManualPages.Locale
import ManualPages.SearchPath

/-! # Directories of locales

Translated pages lie in directories named after locales, inside the hierarchies.

* `LocaleDirectories.childrenOf` — the directories in a hierarchy that serve a locale.
* `LocaleDirectories.candidates` — those of every element of a search path, in order.
* `LocaleDirectories.forLocale?` — the search path of one locale.
* `LocaleDirectories.forLocales` — the search path of a list of locales.
-/

namespace ManualPages

namespace LocaleDirectories

/-- How the names of directories of pages begin, which are no locales. -/
def pages : Text := "man".toList

/-- A directory and the name of an entry as one path. -/
def entryPath (directory name : Text) : Text :=
  if directory.getLast? = some '/' then directory ++ name else directory ++ '/' :: name

/-- The paths of the directories in a hierarchy that serve a locale, in the order of
    their names. -/
def childrenOf (tree : FileTree) (locale : Locale) (hierarchy : Text) (names : List Text) :
    List Text :=
  (names.filter fun name =>
    ! pages.isPrefixOf name && tree.isDirectory (entryPath hierarchy name)
      && locale.servedBy (Locale.parse name)).map (entryPath hierarchy)

/-- The language of which most pages lie in the hierarchies themselves. -/
def english : Text := "en".toList

/-- What one element of a search path contributes for a locale: the directories that
    serve it, and for English the element itself.  An element that cannot be listed
    contributes nothing. -/
def ofElement (tree : FileTree) (locale : Locale) (element : Text) : List Text :=
  match tree.names? element with
  | none => []
  | some names =>
    childrenOf tree locale element names ++ if locale.language = english then [element] else []

/-- What all elements of a search path contribute for a locale, in order. -/
def candidates (tree : FileTree) (locale : Locale) (path : Text) : List Text :=
  (SearchPath.segments path).flatMap (ofElement tree locale)

/-- The search path of one locale.  The untranslated locales leave the path as it is. -/
def forLocale? (tree : FileTree) (path name : Text) : Traced (Option Text) :=
  let locale := Locale.parse name
  if locale.isUntranslated then pure (some path)
  else do
    let found ← SearchPath.appendAllTraced [] (candidates tree locale path)
    return SearchPath.nonEmpty? found

/-- The search paths of locales one after the other, those that have one. -/
def piecesFor (tree : FileTree) (path : Text) : List Text → Traced (List Text)
  | [] => pure []
  | name :: rest => do
    Traced.report (.locale name)
    let piece? ← forLocale? tree path name
    let pieces ← piecesFor tree path rest
    return piece?.toList ++ pieces

/-- The search path of locales in order of preference, and after them the path itself. -/
def forLocales (tree : FileTree) (path names : Text) : Traced Text := do
  Traced.report (.localesFor path)
  if names.isEmpty then return path
  else
    let pieces ← piecesFor tree path (SearchPath.entries names)
    return SearchPath.join (pieces ++ [path])

end LocaleDirectories

end ManualPages
