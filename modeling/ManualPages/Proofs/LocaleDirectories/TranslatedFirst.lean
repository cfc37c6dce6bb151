import ManualPages.LocaleDirectories
import ManualPages.Proofs.DirectoryList.FinalList
import ManualPages.Proofs.SearchPath.Appending

/-! # Translated directories come first

The search path for locales is the pieces of the locales and then the path itself.  Its final
list is therefore made in two parts, and each part is a final list of its own: the limit that
lets in the whole lets in either.

* `ofPath_of_entries_append` — the final list of a path whose elements are those of two others.
* `entries_forLocales` — the elements of the search path for locales.
* `ofPath_forLocales` — the final list for locales, from those of the translated directories and
  of the path itself.
-/

namespace ManualPages

namespace DirectoryList

variable {tree : FileTree} {expander : Expander} {limit : Nat}

/-- A final list can be cut where its path can: what comes later stays as far as it is not
    listed earlier. -/
theorem ofPath_of_entries_append {whole first second : Text} {list : DirectoryList}
    (split : SearchPath.entries whole = SearchPath.entries first ++ SearchPath.entries second)
    (built : (ofPath tree expander limit whole).value = .ok list) :
    ∃ earlier later, (ofPath tree expander limit first).value = .ok earlier ∧
      (ofPath tree expander limit second).value = .ok later ∧
      list.directories =
        earlier.directories ++ later.directories.filter (· ∉ earlier.directories) := by
  obtain ⟨placed, all, room, rfl⟩ := (ofPath_eq_ok_iff expander limit whole list).mp built
  rw [split, directoriesOf_append, List.mapM_append] at all
  cases allFirst : (directoriesOf tree expander (SearchPath.entries first)).mapM (absolute tree) with
  | error failure => simp [allFirst] at all
  | ok front =>
    cases allSecond :
        (directoriesOf tree expander (SearchPath.entries second)).mapM (absolute tree) with
    | error failure => simp [allFirst, allSecond] at all
    | ok back =>
      obtain rfl : front ++ back = placed := by
        simpa [allFirst, allSecond, pure, Except.pure] using all
      -- both parts are no longer than the whole, so the limit lets them in
      rw [List.length_append] at room
      refine ⟨⟨(front.map (resolved tree)).eraseDups, limit⟩,
        ⟨(back.map (resolved tree)).eraseDups, limit⟩, ?_, ?_, ?_⟩
      · exact (ofPath_eq_ok_iff ..).mpr ⟨front, allFirst, by omega, rfl⟩
      · exact (ofPath_eq_ok_iff ..).mpr ⟨back, allSecond, by omega, rfl⟩
      · simp [eraseDups_append_filter]

theorem nodup_of_ofPath {path : Text} {list : DirectoryList}
    (built : (ofPath tree expander limit path).value = .ok list) : list.directories.Nodup := by
  obtain ⟨placed, -, -, rfl⟩ := (ofPath_eq_ok_iff expander limit path list).mp built
  exact nodup_eraseDups _

end DirectoryList

theorem FileTree.names?_of_listing_singleton {tree : FileTree} {path name : Text}
    {octets : Octets} {node : Node} (listed : tree.listing? path = some [(octets, node)])
    (decoded : Octets.decode? octets = some name) : tree.names? path = some [name] := by
  simp [FileTree.names?, listed, decoded, Text.sort]

namespace LocaleDirectories

variable (tree : FileTree)

theorem piecesFor_value (path : Text) (names : List Text) :
    (piecesFor tree path names).value =
      names.filterMap fun name => (forLocale? tree path name).value := by
  induction names with
  | nil => rfl
  | cons name rest ih =>
    simp only [piecesFor, Traced.value_bind, Traced.value_pure, ih]
    cases made : (forLocale? tree path name).value with
    | none => simp [made]
    | some piece => simp [made]

theorem forLocale?_value (path name : Text) :
    (forLocale? tree path name).value =
      if (Locale.parse name).isUntranslated then some path
      else SearchPath.nonEmpty?
        (SearchPath.appendAll [] (candidates tree (Locale.parse name) path)) := by
  simp only [forLocale?]
  by_cases untranslated : (Locale.parse name).isUntranslated <;> simp [untranslated]

/-- The elements of the search path for locales are those of the pieces, then those of the path. -/
theorem entries_forLocales (path names : Text) :
    SearchPath.entries (forLocales tree path names).value =
      SearchPath.entries (SearchPath.join ((SearchPath.entries names).filterMap fun name =>
        (forLocale? tree path name).value)) ++ SearchPath.entries path := by
  unfold forLocales
  by_cases none : names = []
  · simp [none, SearchPath.join]
  · simp [none, piecesFor_value, SearchPath.entries_join]

/-- Where the search path for locales has a final list, so has the path itself with the same
    limit.  The first is the list of the translated directories, from the pieces of the locales in
    order of preference, and then the second without those: no directory of the path is lost,
    none comes out of its order, and none is listed twice. -/
theorem ofPath_forLocales (expander : Expander) (limit : Nat) (path names : Text)
    (list : DirectoryList)
    (built : (DirectoryList.ofPath tree expander limit (forLocales tree path names).value).value =
      .ok list) :
    let pieces := (SearchPath.entries names).filterMap fun name => (forLocale? tree path name).value
    ∃ translated untranslated,
      (DirectoryList.ofPath tree expander limit (SearchPath.join pieces)).value = .ok translated ∧
      (DirectoryList.ofPath tree expander limit path).value = .ok untranslated ∧
      list.directories = translated.directories ++
        untranslated.directories.filter (· ∉ translated.directories) ∧
      (pieces = [] → translated.directories = []) ∧
      (∀ directory ∈ untranslated.directories, directory ∈ list.directories) ∧
      list.directories.Nodup := by
  intro pieces
  obtain ⟨translated, untranslated, madeFirst, madeSecond, same⟩ :=
    DirectoryList.ofPath_of_entries_append (entries_forLocales tree path names) built
  refine ⟨translated, untranslated, madeFirst, madeSecond, same, ?_, ?_,
    DirectoryList.nodup_of_ofPath built⟩
  · intro noPieces
    change (DirectoryList.ofPath tree expander limit (SearchPath.join pieces)).value = _ at madeFirst
    rw [noPieces] at madeFirst
    cases madeFirst
    rfl
  · intro directory member
    rw [same, List.mem_append, List.mem_filter]
    by_cases listed : directory ∈ translated.directories
    · exact .inl listed
    · exact .inr ⟨member, by simpa using listed⟩

/-- A hierarchy with German pages, and another one where they are a link to all of the first. -/
def aliased : FileTree where
  root := .directory [
    (Octets.encode "usr".toList, .directory [(Octets.encode "de".toList, .directory [])]),
    (Octets.encode "opt".toList, .directory [
      (Octets.encode "de".toList, .link (Octets.encode "/usr".toList))])]

/-- A translated directory that is a directory of the path comes first and is not repeated. -/
theorem ofPath_forLocales_of_alias :
    (DirectoryList.ofPath aliased (.table []) 4
        (forLocales aliased "/usr:/opt".toList "de".toList).value).value =
      .ok ⟨["/usr/de".toList, "/usr".toList, "/opt".toList], 4⟩ ∧
    ∃ translated untranslated,
      (DirectoryList.ofPath aliased (.table []) 4
        (SearchPath.join ((SearchPath.entries "de".toList).filterMap fun name =>
          (forLocale? aliased "/usr:/opt".toList name).value))).value = .ok translated ∧
      (DirectoryList.ofPath aliased (.table []) 4 "/usr:/opt".toList).value = .ok untranslated ∧
      ["/usr/de".toList, "/usr".toList, "/opt".toList] = translated.directories ++
        untranslated.directories.filter (· ∉ translated.directories) := by
  have german : Octets.decode? (Octets.encode "de".toList) = some "de".toList := by decide
  have usr : aliased.names? "/usr".toList = some ["de".toList] :=
    FileTree.names?_of_listing_singleton rfl german
  have opt : aliased.names? "/opt".toList = some ["de".toList] :=
    FileTree.names?_of_listing_singleton rfl german
  have found : candidates aliased (Locale.parse "de".toList) "/usr:/opt".toList =
      ["/usr/de".toList, "/opt/de".toList] := by
    change ofElement aliased _ "/usr".toList ++ (ofElement aliased _ "/opt".toList ++ []) = _
    rw [ofElement, usr, ofElement, opt]
    decide
  have expanded : (forLocales aliased "/usr:/opt".toList "de".toList).value =
      "/usr/de:/opt/de:/usr:/opt".toList := by
    have pieces : (piecesFor aliased "/usr:/opt".toList ["de".toList]).value =
        ["/usr/de:/opt/de".toList] := by
      rw [piecesFor_value, List.filterMap_cons, forLocale?_value, found]
      decide
    change SearchPath.join ((piecesFor aliased "/usr:/opt".toList ["de".toList]).value ++ _) = _
    rw [pieces]
    decide
  have built : (DirectoryList.ofPath aliased (.table []) 4
        (forLocales aliased "/usr:/opt".toList "de".toList).value).value =
      .ok ⟨["/usr/de".toList, "/usr".toList, "/opt".toList], 4⟩ := by
    rw [expanded]
    rfl
  obtain ⟨translated, untranslated, madeFirst, madeSecond, same, -⟩ :=
    ofPath_forLocales aliased (.table []) 4 "/usr:/opt".toList "de".toList _ built
  exact ⟨built, translated, untranslated, madeFirst, madeSecond, same⟩

end LocaleDirectories

end ManualPages
