import ManualPages.CachePath.Mapping
import ManualPages.Proofs.LocaleDirectories.OneLocale

/-! # Search paths made from the elements of others

The cache search path and the search path of a locale are appended from what the elements of a path
contribute, one after the other.  So what two paths with a colon between them come to is what the
second one comes to appended to what the first one comes to, although each of the two has been rid of
its repetitions by itself.

* `appendAll_of_concatenation` — the contributions of elements, appended in two parts.
* `cacheSearchPath_eq` — the cache search path as contributions of elements.
* `paths_of_concatenation` — both search paths of any two paths.
-/

namespace ManualPages

/-- What elements contribute can be appended in two parts, one for each of two paths. -/
theorem SearchPath.appendAll_of_concatenation (contribution : Text → List Text)
    (first second : Text) :
    appendAll [] ((segments (first ++ ':' :: second)).flatMap contribution) =
      append (appendAll [] ((segments first).flatMap contribution))
        (appendAll [] ((segments second).flatMap contribution)) := by
  rw [segments_append_colon, List.flatMap_append, appendAll_nil_append]

/-- An element that is empty contributes nothing to the cache search path, any other one its cache
    directory. -/
theorem Catalog.cacheSearchPath_eq (catalog : Catalog) (path : Text) :
    (catalog.cacheSearchPath path).value =
      SearchPath.appendAll [] ((SearchPath.segments path).flatMap fun element =>
        if element.isEmpty then [] else [catalog.cacheOf element]) := by
  rw [cacheSearchPath, SearchPath.value_appendAllTraced, SearchPath.entries]
  congr 1
  induction SearchPath.segments path with
  | nil => rfl
  | cons element elements ih => cases element <;> simpa using ih

open LocaleDirectories in
/-- The cache search path of two paths with a colon between them is appended from those of the two,
    and so is the search path of a locale, where none counts as the empty path.  The locales of the
    untranslated pages are left out: they leave a path as it is, with its repetitions. -/
theorem paths_of_concatenation :
    (∀ (catalog : Catalog) (first second : Text),
      (catalog.cacheSearchPath (first ++ ':' :: second)).value =
        SearchPath.append (catalog.cacheSearchPath first).value
          (catalog.cacheSearchPath second).value) ∧
    ∀ (tree : FileTree) (name : Text), (Locale.parse name).language ≠ "C".toList →
      (Locale.parse name).language ≠ "POSIX".toList → ∀ first second : Text,
        (forLocale? tree (first ++ ':' :: second) name).value.getD [] =
          SearchPath.append ((forLocale? tree first name).value.getD [])
            ((forLocale? tree second name).value.getD []) := by
  constructor
  · intro catalog first second
    rw [Catalog.cacheSearchPath_eq, Catalog.cacheSearchPath_eq, Catalog.cacheSearchPath_eq]
    exact SearchPath.appendAll_of_concatenation _ first second
  · intro tree name notC notPosix first second
    have translated := isUntranslated_eq_false notC notPosix
    rw [getD_forLocale? translated, getD_forLocale? translated, getD_forLocale? translated]
    exact SearchPath.appendAll_of_concatenation _ first second

open LocaleDirectories in
/-- Elements that both paths have are found for each of them, and once for both together. -/
theorem paths_of_concatenation_of_shared_elements :
    let first := "/usr:/opt".toList
    let second := "/opt::/usr".toList
    let name := "de_AT".toList
    (Locale.parse name).language ≠ "C".toList ∧ (Locale.parse name).language ≠ "POSIX".toList ∧
      (forLocale? aliased first name).value = some "/usr/de:/opt/de".toList ∧
      (forLocale? aliased second name).value = some "/opt/de:/usr/de".toList ∧
      (forLocale? aliased (first ++ ':' :: second) name).value.getD [] =
        "/usr/de:/opt/de".toList := by
  intro first second name
  have notC : (Locale.parse name).language ≠ "C".toList := by decide
  have notPosix : (Locale.parse name).language ≠ "POSIX".toList := by decide
  have german : Octets.decode? (Octets.encode "de".toList) = some "de".toList := by decide
  have usr : ofElement aliased (Locale.parse name) "/usr".toList = ["/usr/de".toList] := by
    rw [ofElement, FileTree.names?_of_listing_singleton rfl german]
    decide
  have opt : ofElement aliased (Locale.parse name) "/opt".toList = ["/opt/de".toList] := by
    rw [ofElement, FileTree.names?_of_listing_singleton rfl german]
    decide
  have front : (forLocale? aliased first name).value = some "/usr/de:/opt/de".toList := by
    have found : candidates aliased (Locale.parse name) first =
        ["/usr/de".toList, "/opt/de".toList] := by
      change ofElement _ _ "/usr".toList ++ (ofElement _ _ "/opt".toList ++ []) = _
      rw [usr, opt]
      rfl
    rw [forLocale?_value, found]
    decide
  have back : (forLocale? aliased second name).value = some "/opt/de:/usr/de".toList := by
    have found : candidates aliased (Locale.parse name) second =
        ["/opt/de".toList, "/usr/de".toList] := by
      change ofElement _ _ "/opt".toList ++ ([] ++ (ofElement _ _ "/usr".toList ++ [])) = _
      rw [usr, opt]
      rfl
    rw [forLocale?_value, found]
    decide
  refine ⟨notC, notPosix, front, back, ?_⟩
  rw [paths_of_concatenation.2 aliased name notC notPosix first second, front, back]
  decide

/-- In the untranslated locale an element that both paths have stays twice. -/
example (tree : FileTree) :
    (LocaleDirectories.forLocale? tree "/usr:/usr".toList "C".toList).value = some "/usr:/usr".toList ∧
      SearchPath.append "/usr".toList "/usr".toList = "/usr".toList :=
  ⟨rfl, rfl⟩

end ManualPages
