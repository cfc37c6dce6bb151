import ManualPages.Proofs.LocaleDirectories.OneLocale

/-! # Locales that are more specific

Serving is reflexive and transitive, so a directory that serves a locale serves every more specific one.
The search path of a more specific locale therefore has everything that the one of the other locale has,
and besides it only what comes of directories that serve the more specific locale alone.

* `servedBy_iff`, `servedBy_refl`, `servedBy_trans` — which locales are served by which.
* `Offers.of_servedBy`, `directoriesFor_subset` — what is offered to a more specific locale too.
* `mem_directoriesFor_or` — what is offered to it in addition.
* `entries_forLocale?_subset` — the two search paths.
-/

namespace ManualPages

namespace Locale

variable {locale candidate : Locale}

theorem servedBy_iff :
    locale.servedBy candidate ↔ locale.language = candidate.language ∧
      (candidate.territory = [] ∨ locale.territory = candidate.territory) ∧
      (candidate.modifier = [] ∨ locale.modifier = candidate.modifier) := by
  simp [servedBy, and_assoc]

theorem servedBy_refl (locale : Locale) : locale.servedBy locale :=
  servedBy_iff.mpr ⟨rfl, .inr rfl, .inr rfl⟩

theorem servedBy_trans {first second third : Locale} (upper : first.servedBy second)
    (lower : second.servedBy third) : first.servedBy third := by
  obtain ⟨language, territory, modifier⟩ := servedBy_iff.mp upper
  obtain ⟨language', territory', modifier'⟩ := servedBy_iff.mp lower
  -- a part that the last locale has is the part of the second, and so of the first
  have part {a b c : Text} (upper : b = [] ∨ a = b) (lower : c = [] ∨ b = c) : c = [] ∨ a = c := by
    obtain nothing | rfl := lower
    · exact .inl nothing
    · exact upper
  exact servedBy_iff.mpr ⟨language.trans language', part territory territory', part modifier modifier'⟩

theorem isUntranslated_eq_of_servedBy (serves : locale.servedBy candidate) :
    locale.isUntranslated = candidate.isUntranslated := by
  rw [isUntranslated, isUntranslated, (servedBy_iff.mp serves).1]

end Locale

namespace LocaleDirectories

variable {tree : FileTree} {specific general : Locale} {path hierarchy child directory entry : Text}

theorem Offers.of_servedBy (serves : specific.servedBy general)
    (offers : Offers tree general hierarchy child) : Offers tree specific hierarchy child := by
  obtain ⟨listed, notPages, directory, servesGeneral⟩ := offers
  exact ⟨listed, notPages, directory, Locale.servedBy_trans serves servesGeneral⟩

theorem directoriesFor_subset (serves : specific.servedBy general)
    (found : directory ∈ directoriesFor tree general path) :
    directory ∈ directoriesFor tree specific path := by
  have language := (Locale.servedBy_iff.mp serves).1
  obtain ⟨element, cut, ⟨child, offers, same⟩ | ⟨english, listed, same⟩⟩ := mem_directoriesFor.mp found
  · exact mem_directoriesFor.mpr ⟨element, cut, .inl ⟨child, offers.of_servedBy serves, same⟩⟩
  · exact mem_directoriesFor.mpr ⟨element, cut, .inr ⟨language.trans english, listed, same⟩⟩

/-- What a more specific locale finds in addition are directories that do not serve the other one. -/
theorem mem_directoriesFor_or (serves : specific.servedBy general)
    (found : directory ∈ directoriesFor tree specific path) :
    directory ∈ directoriesFor tree general path ∨
      ∃ element ∈ SearchPath.segments path, ∃ child, Offers tree specific element child ∧
        ¬ general.servedBy (Locale.parse child) ∧ directory = entryPath element child := by
  have language := (Locale.servedBy_iff.mp serves).1
  obtain ⟨element, cut, ⟨child, offers, same⟩ | ⟨english, listed, same⟩⟩ := mem_directoriesFor.mp found
  · by_cases servesGeneral : general.servedBy (Locale.parse child)
    · left
      have offersGeneral : Offers tree general element child :=
        ⟨offers.1, offers.2.1, offers.2.2.1, servesGeneral⟩
      exact mem_directoriesFor.mpr ⟨element, cut, .inl ⟨child, offersGeneral, same⟩⟩
    · exact .inr ⟨element, cut, child, offers, servesGeneral, same⟩
  · left
    exact mem_directoriesFor.mpr ⟨element, cut, .inr ⟨language.symm.trans english, listed, same⟩⟩

/-- Every locale serves itself, and what serves a locale serves those that it serves.  So a locale that
    is served by another one loses nothing of the other's search path, whatever is in the tree: its own
    has all of those entries, and besides them only what comes of directories that do not serve the
    other one. -/
theorem entries_forLocale?_subset :
    (∀ locale : Locale, locale.servedBy locale) ∧
    (∀ first second third : Locale, first.servedBy second → second.servedBy third →
      first.servedBy third) ∧
    ∀ (tree : FileTree) (path name other : Text),
      (Locale.parse name).servedBy (Locale.parse other) →
      let entriesFor (name : Text) := SearchPath.entries ((forLocale? tree path name).value.getD [])
      entriesFor other ⊆ entriesFor name ∧
      ∀ entry ∈ entriesFor name, entry ∈ entriesFor other ∨
        ∃ element ∈ SearchPath.segments path, ∃ child,
          Offers tree (Locale.parse name) element child ∧
          ¬ (Locale.parse other).servedBy (Locale.parse child) ∧
          entry ∈ SearchPath.entries (entryPath element child) := by
  refine ⟨Locale.servedBy_refl, fun _ _ _ => Locale.servedBy_trans, ?_⟩
  intro tree path name other serves entriesFor
  have sameKind := Locale.isUntranslated_eq_of_servedBy serves
  cases translated : (Locale.parse other).isUntranslated with
  | true =>
    -- both search paths are the path as it is
    have same : entriesFor name = entriesFor other := by
      simp [entriesFor, forLocale?_value, sameKind, translated]
    rw [same]
    exact ⟨List.Subset.refl _, fun entry member => .inl member⟩
  | false =>
    rw [translated] at sameKind
    constructor
    · intro entry member
      obtain ⟨directory, found, inside⟩ := (mem_entries_of_translated translated).mp member
      exact (mem_entries_of_translated sameKind).mpr
        ⟨directory, directoriesFor_subset serves found, inside⟩
    · intro entry member
      obtain ⟨directory, found, inside⟩ := (mem_entries_of_translated sameKind).mp member
      obtain shared | ⟨element, cut, child, offers, foreign, rfl⟩ := mem_directoriesFor_or serves found
      · exact .inl ((mem_entries_of_translated translated).mpr ⟨directory, shared, inside⟩)
      · exact .inr ⟨element, cut, child, offers, foreign, inside⟩

/-- A hierarchy with German pages, and with some for Austria alone. -/
def austrian : FileTree where
  root := .directory [
    (Octets.encode "usr".toList, .directory [
      (Octets.encode "de_AT".toList, .directory []),
      (Octets.encode "man1".toList, .directory []),
      (Octets.encode "de".toList, .directory [])])]

/-- Who asks for the pages for Austria gets the German pages too. -/
theorem entries_forLocale?_of_austrian :
    let entriesFor (name : String) :=
      SearchPath.entries ((forLocale? austrian "/usr".toList name.toList).value.getD [])
    (Locale.parse "de_AT.UTF-8@euro".toList).servedBy (Locale.parse "de.ISO-8859-1".toList) ∧
      "/usr/de".toList ∈ entriesFor "de.ISO-8859-1" ∧
      "/usr/de".toList ∈ entriesFor "de_AT.UTF-8@euro" ∧
      "/usr/de_AT".toList ∈ entriesFor "de_AT.UTF-8@euro" ∧
      ¬ (Locale.parse "de.ISO-8859-1".toList).servedBy (Locale.parse "de_AT".toList) := by
  intro entriesFor
  have serves : (Locale.parse "de_AT.UTF-8@euro".toList).servedBy
      (Locale.parse "de.ISO-8859-1".toList) := by decide
  have german : Offers austrian (Locale.parse "de.ISO-8859-1".toList) "/usr".toList "de".toList :=
    ⟨⟨_, rfl, by decide⟩, by decide⟩
  have forAustria : Offers austrian (Locale.parse "de_AT.UTF-8@euro".toList) "/usr".toList
      "de_AT".toList := ⟨⟨_, rfl, by decide⟩, by decide⟩
  have listed {name child : String}
      (translated : (Locale.parse name.toList).isUntranslated = false)
      (offers : Offers austrian (Locale.parse name.toList) "/usr".toList child.toList)
      (whole : entryPath "/usr".toList child.toList ∈
        SearchPath.entries (entryPath "/usr".toList child.toList)) :
      entryPath "/usr".toList child.toList ∈ entriesFor name :=
    (mem_entries_of_translated translated).mpr ⟨_, mem_directoriesFor.mpr
      ⟨"/usr".toList, by decide, .inl ⟨child.toList, offers, rfl⟩⟩, whole⟩
  have found : "/usr/de".toList ∈ entriesFor "de.ISO-8859-1" :=
    listed (by decide) german (by decide)
  obtain ⟨-, -, inclusion⟩ := entries_forLocale?_subset
  obtain ⟨kept, -⟩ := inclusion austrian "/usr".toList "de_AT.UTF-8@euro".toList
    "de.ISO-8859-1".toList serves
  exact ⟨serves, found, kept found, listed (by decide) forAustria (by decide), by decide⟩

end LocaleDirectories

end ManualPages
