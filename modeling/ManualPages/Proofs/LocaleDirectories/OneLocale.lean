import ManualPages.Proofs.FileTree.Names
import ManualPages.Proofs.LocaleDirectories.TranslatedFirst
import ManualPages.Proofs.Text.Order

/-! # The search path of one locale

In a tree without colons in its names, the search path of a locale is told by what it lists: for
every element of the path that can be listed the directories of translated pages in it, in the order
of the octets of their names, and for English the element after them, each at its first occurrence.

* `names?_eq_map` — the names in a directory, in the order of their octets.
* `Serves`, `translations` — the directories in a hierarchy that hold pages of a locale.
* `directoriesFor`, `candidates_eq` — those of every element, and the elements for English.
* `Offers`, `mem_directoriesFor` — what is found for a locale, one by one.
* `getD_forLocale?`, `mem_entries_of_translated` — the search path of a locale, and its entries.
* `forLocale?_outcome` — the search path of a locale, and when there is none.
-/

namespace ManualPages

/-! ## Names -/

namespace Octets

def colon : UInt8 := 58

theorem colon_mem_encode {t : Text} (member : ':' ∈ t) : colon ∈ encode t :=
  List.mem_flatMap.mpr ⟨':', member, List.mem_singleton.mpr rfl⟩

end Octets

theorem FileTree.names?_eq_map (tree : FileTree) (path : Text) :
    tree.names? path = (tree.listing? path).map fun entries =>
      (Octets.sort (entries.map Prod.fst)).filterMap Octets.decode? := by
  rw [names?]
  congr
  funext entries
  rw [← Octets.sort_decoded, List.filterMap_map]
  rfl

namespace LocaleDirectories

variable {tree : FileTree} {locale : Locale}

/-! ## Directories of translated pages -/

/-- Whether the entry of a name in a hierarchy is a directory of pages for a locale. -/
def Serves (tree : FileTree) (locale : Locale) (hierarchy name : Text) : Prop :=
  ¬ pages <+: name ∧ tree.isDirectory (entryPath hierarchy name) ∧
    locale.servedBy (Locale.parse name)

instance (hierarchy name : Text) : Decidable (Serves tree locale hierarchy name) :=
  inferInstanceAs (Decidable (_ ∧ _ ∧ _))

/-- The directories of pages for a locale in a hierarchy, in the order of the octets of their names.
    Names that are no texts are passed over. -/
def translations (tree : FileTree) (locale : Locale) (hierarchy : Text) (names : List Octets) :
    List Text :=
  (((Octets.sort names).filterMap Octets.decode?).filter (Serves tree locale hierarchy ·)).map
    (entryPath hierarchy)

/-- What the elements of a path that can be listed have for a locale, one after the other: their
    directories of translated pages, and for English then the element itself. -/
def directoriesFor (tree : FileTree) (locale : Locale) (path : Text) : List Text :=
  (SearchPath.segments path).flatMap fun element =>
    match tree.listing? element with
    | none => []
    | some entries =>
      translations tree locale element (entries.map Prod.fst) ++
        if locale.language = "en".toList then [element] else []

theorem childrenOf_eq (hierarchy : Text) (names : List Text) :
    childrenOf tree locale hierarchy names =
      (names.filter (Serves tree locale hierarchy ·)).map (entryPath hierarchy) := by
  rw [childrenOf]
  congr 1
  refine List.filter_congr fun name _ => ?_
  have others : pages.isPrefixOf name = false ↔ ¬ pages <+: name := by
    rw [← List.isPrefixOf_iff_prefix, Bool.not_eq_true]
  rw [Bool.eq_iff_iff, decide_eq_true_iff, Serves, ← others]
  simp [and_assoc]

theorem candidates_eq (path : Text) :
    candidates tree locale path = directoriesFor tree locale path := by
  refine List.flatMap_congr fun element _ => ?_
  rw [ofElement, FileTree.names?_eq_map]
  cases tree.listing? element with
  | none => rfl
  | some entries =>
    simp only [Option.map_some, childrenOf_eq]
    rfl

/-! ## Their paths -/

theorem entryPath_ne_nil (hierarchy name : Text) : entryPath hierarchy name ≠ [] := by
  unfold entryPath
  split
  next ends =>
    obtain ⟨before, rfl⟩ := List.getLast?_eq_some_iff.mp ends
    simp
  · simp

theorem colon_notMem_entryPath {hierarchy name : Text} (inHierarchy : ':' ∉ hierarchy)
    (inName : ':' ∉ name) : ':' ∉ entryPath hierarchy name := by
  unfold entryPath
  split <;> simp [inHierarchy, inName]

/-- A hierarchy can be listed and has an entry of that name, which serves the locale. -/
def Offers (tree : FileTree) (locale : Locale) (hierarchy name : Text) : Prop :=
  (∃ entries, tree.listing? hierarchy = some entries ∧ Octets.encode name ∈ entries.map Prod.fst) ∧
    Serves tree locale hierarchy name

theorem mem_translations {hierarchy directory : Text} {names : List Octets} :
    directory ∈ translations tree locale hierarchy names ↔
      ∃ name, Octets.encode name ∈ names ∧ Serves tree locale hierarchy name ∧
        directory = entryPath hierarchy name := by
  have read {name : Text} : name ∈ (Octets.sort names).filterMap Octets.decode? ↔
      Octets.encode name ∈ names := by
    rw [List.mem_filterMap]
    constructor
    · rintro ⟨octets, sorted, decoded⟩
      rw [Octets.encode_of_decode? decoded]
      exact List.mem_mergeSort.mp sorted
    · exact fun listed => ⟨_, List.mem_mergeSort.mpr listed, Octets.decode?_encode name⟩
  simp only [translations, List.mem_map, List.mem_filter, read, decide_eq_true_iff, and_assoc,
    @eq_comm _ directory]

/-- A directory that is found for a locale is an entry that an element offers or, for English, an
    element that can be listed. -/
theorem mem_directoriesFor {path directory : Text} :
    directory ∈ directoriesFor tree locale path ↔
      ∃ element ∈ SearchPath.segments path,
        (∃ name, Offers tree locale element name ∧ directory = entryPath element name) ∨
          locale.language = "en".toList ∧ (tree.listing? element).isSome ∧ directory = element := by
  rw [directoriesFor, List.mem_flatMap]
  refine exists_congr fun element => and_congr_right fun _ => ?_
  cases listed : tree.listing? element with
  | none => simp [Offers, listed]
  | some entries =>
    simp only [List.mem_append, mem_translations, Offers, listed, Option.some.injEq,
      exists_eq_left', and_assoc, Option.isSome_some, true_and]
    by_cases english : locale.language = "en".toList <;> simp [english]

theorem Offers.test_name {test : Octets → Bool} {hierarchy name : Text}
    (offers : Offers tree locale hierarchy name) (all : tree.root.allNames test = true) :
    test (Octets.encode name) = true := by
  obtain ⟨⟨entries, listed, inside⟩, -⟩ := offers
  obtain ⟨entry, here, same⟩ := List.mem_map.mp inside
  rw [← same]
  exact FileTree.allNames_listing? all listed entry here

theorem nil_notMem_directoriesFor (path : Text) : [] ∉ directoriesFor tree locale path := by
  intro member
  obtain ⟨element, -, ⟨name, -, same⟩ | ⟨-, listed, rfl⟩⟩ := mem_directoriesFor.mp member
  · exact entryPath_ne_nil element name same.symm
  · rw [FileTree.listing?_nil] at listed
    contradiction

theorem colon_notMem_directoriesFor (whole : tree.root.allNames (Octets.colon ∉ ·) = true)
    {path directory : Text} (member : directory ∈ directoriesFor tree locale path) :
    ':' ∉ directory := by
  obtain ⟨element, cut, ⟨name, offers, rfl⟩ | ⟨-, -, rfl⟩⟩ := mem_directoriesFor.mp member
  · have absent : Octets.colon ∉ Octets.encode name := of_decide_eq_true (offers.test_name whole)
    refine colon_notMem_entryPath (SearchPath.colon_notMem_of_mem_segments cut) fun present => ?_
    exact absent (Octets.colon_mem_encode present)
  · exact SearchPath.colon_notMem_of_mem_segments cut

/-! ## The search path -/

theorem isUntranslated_eq_false (notC : locale.language ≠ "C".toList)
    (notPosix : locale.language ≠ "POSIX".toList) : locale.isUntranslated = false := by
  simpa [Locale.isUntranslated, Locale.untranslatedNames] using ⟨notC, notPosix⟩

theorem getD_forLocale? {path name : Text} (translated : (Locale.parse name).isUntranslated = false) :
    (forLocale? tree path name).value.getD [] =
      SearchPath.appendAll [] (candidates tree (Locale.parse name) path) := by
  rw [forLocale?_value, translated, if_neg Bool.false_ne_true, SearchPath.getD_nonEmpty?]

/-- The entries of the search path of a locale are those of what is found for it. -/
theorem mem_entries_of_translated {path name entry : Text}
    (translated : (Locale.parse name).isUntranslated = false) :
    entry ∈ SearchPath.entries ((forLocale? tree path name).value.getD []) ↔
      ∃ directory ∈ directoriesFor tree (Locale.parse name) path,
        entry ∈ SearchPath.entries directory := by
  rw [getD_forLocale? translated, candidates_eq, SearchPath.mem_entries_appendAll]

/-- In a tree without colons in its names, and for a locale that is not one of the two of the
    untranslated pages, there is a search path unless nothing is found for the locale: it has
    everything that is found, each at its first occurrence. -/
theorem forLocale?_outcome (tree : FileTree) (path name : Text)
    (whole : tree.root.allNames (Octets.colon ∉ ·) = true)
    (notC : (Locale.parse name).language ≠ "C".toList)
    (notPosix : (Locale.parse name).language ≠ "POSIX".toList) :
    let found := directoriesFor tree (Locale.parse name) path
    (found ≠ [] → (forLocale? tree path name).value = some (SearchPath.join found.eraseDups)) ∧
    ((forLocale? tree path name).value = none ↔ found = []) := by
  intro found
  have translated := isUntranslated_eq_false notC notPosix
  have answer : (forLocale? tree path name).value =
      if found = [] then none else some (SearchPath.join found.eraseDups) := by
    rw [forLocale?_value, translated, if_neg Bool.false_ne_true, candidates_eq]
    exact SearchPath.nonEmpty?_appendAll_of_whole (nil_notMem_directoriesFor path) fun _ =>
      colon_notMem_directoriesFor whole
  rw [answer]
  constructor
  · exact fun some => if_neg some
  · split <;> simp_all

/-- Two hierarchies with pages in English, the first of which has a link to the second. -/
def british : FileTree where
  root := .directory [
    (Octets.encode "usr".toList, .directory [
      (Octets.encode "en_GB".toList, .link (Octets.encode "/opt".toList)),
      (Octets.encode "man1".toList, .directory []),
      (Octets.encode "en_US".toList, .directory []),
      (Octets.encode "en".toList, .directory [])]),
    (Octets.encode "opt".toList, .directory [(Octets.encode "en.txt".toList, .file [])])]

/-- An element that is missing is passed over, and one that is listed already is not repeated. -/
theorem forLocale?_outcome_of_english :
    let path := "/usr:/nowhere:/opt/:/usr/en".toList
    let name := "en_GB.UTF-8".toList
    british.root.allNames (Octets.colon ∉ ·) = true ∧
      (Locale.parse name).language ≠ "C".toList ∧ (Locale.parse name).language ≠ "POSIX".toList ∧
      directoriesFor british (Locale.parse name) path =
        ["/usr/en".toList, "/usr/en_GB".toList, "/usr".toList, "/opt/".toList, "/usr/en".toList] ∧
      (forLocale? british path name).value = some "/usr/en:/usr/en_GB:/usr:/opt/".toList := by
  intro path name
  have whole : british.root.allNames (Octets.colon ∉ ·) = true := by decide
  have notC : (Locale.parse name).language ≠ "C".toList := by decide
  have notPosix : (Locale.parse name).language ≠ "POSIX".toList := by decide
  let names (written : List String) : List Octets := written.map fun n => Octets.encode n.toList
  have sorted : Octets.sort (names ["en_GB", "man1", "en_US", "en"]) =
      names ["en", "en_GB", "en_US", "man1"] := Octets.sort_eq (by decide) (by decide)
  have usr : translations british (Locale.parse name) "/usr".toList
      (names ["en_GB", "man1", "en_US", "en"]) = ["/usr/en".toList, "/usr/en_GB".toList] := by
    rw [translations, sorted]
    decide
  have opt : translations british (Locale.parse name) "/opt/".toList (names ["en.txt"]) = [] := by
    rw [translations, Octets.sort_eq (.refl _)] <;> decide
  have inside : translations british (Locale.parse name) "/usr/en".toList (names []) = [] := by
    rw [translations, Octets.sort_eq (.refl _)] <;> decide
  have found : directoriesFor british (Locale.parse name) path =
      ["/usr/en".toList, "/usr/en_GB".toList, "/usr".toList, "/opt/".toList,
        "/usr/en".toList] := by
    change (translations british (Locale.parse name) "/usr".toList
        (names ["en_GB", "man1", "en_US", "en"]) ++ ["/usr".toList]) ++ ([] ++
      ((translations british (Locale.parse name) "/opt/".toList (names ["en.txt"]) ++
          ["/opt/".toList]) ++
        ((translations british (Locale.parse name) "/usr/en".toList (names []) ++
          ["/usr/en".toList]) ++ []))) = _
    rw [usr, opt, inside]
    rfl
  have outcome := forLocale?_outcome british path name whole notC notPosix
  simp only [found] at outcome
  refine ⟨whole, notC, notPosix, found, (outcome.1 (List.cons_ne_nil _ _)).trans ?_⟩
  decide

end LocaleDirectories

end ManualPages
