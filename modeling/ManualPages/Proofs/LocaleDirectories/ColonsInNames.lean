import ManualPages.Proofs.LocaleDirectories.OneLocale
import ManualPages.Proofs.Text.Boundaries

/-! # Colons in the names of directories

A directory of translated pages is put into the search path under its name as it is, and the codeset in
a name is not looked at, so a name with a colon in it comes apart there.  What is before the colon need
not be a directory, and what is behind it is relative.  Everything else in the search path of a locale
is an existing directory that belongs there.

* `Sound`, `sound_of_mem_directoriesFor` — what belongs into the search path of a locale.
* `entries_entryPath`, `entries_eq_nil_iff` — how a name comes apart at its first colon.
* `EndsInColons`, `sound_pieces_iff` — the names with colons that do no harm.
* `mem_entries_forLocale?` — the entries of the search path of a locale.
* `sound_forLocale?_iff` — when all of them belong there.
-/

namespace ManualPages

theorem FileTree.isDirectory_of_listing? {tree : FileTree} {path : Text}
    (listed : (tree.listing? path).isSome) : tree.isDirectory path := by
  rw [listing?] at listed
  split at listed
  next place entries located =>
    rw [isDirectory, probe, probeOctets, located]
    rfl
  · contradiction

/-- A text has nothing but colons exactly if it has no elements. -/
theorem SearchPath.entries_eq_nil_iff {path : Text} :
    SearchPath.entries path = [] ↔ ∀ c ∈ path, c = ':' := by
  have parts : (segments path).flatten = path.filter (! · == ':') :=
    flatten_splitOnP (· == ':') path
  have emptyParts : entries path = [] ↔ (segments path).flatten = [] := by
    simp [entries, List.filter_eq_nil_iff, List.flatten_eq_nil_iff]
  rw [emptyParts, parts, List.filter_eq_nil_iff]
  simp

namespace LocaleDirectories

variable {tree : FileTree} {locale : Locale} {path entry element stem rest : Text}

/-! ## What belongs into the search path -/

/-- The absolute path of a directory that is an element of the path, for English, or a directory of
    translated pages in one. -/
structure Sound (tree : FileTree) (locale : Locale) (path entry : Text) : Prop where
  absolute : entry.head? = some '/'
  directory : tree.isDirectory entry
  found : (locale.language = "en".toList ∧ entry ∈ SearchPath.entries path) ∨
    ∃ element ∈ SearchPath.entries path, ∃ name, Offers tree locale element name ∧
      entry = entryPath element name

theorem head?_entryPath (absolute : element.head? = some '/') (name : Text) :
    (entryPath element name).head? = some '/' := by
  obtain ⟨rest, rfl⟩ := List.head?_eq_some_iff.mp absolute
  unfold entryPath
  split <;> rfl

theorem mem_entries_of_listing? (cut : element ∈ SearchPath.segments path)
    (listed : (tree.listing? element).isSome) : element ∈ SearchPath.entries path := by
  refine List.mem_filter.mpr ⟨cut, ?_⟩
  cases element with
  | nil =>
    rw [FileTree.listing?_nil] at listed
    contradiction
  | cons c rest => rfl

theorem Offers.listing? {name : Text} (offers : Offers tree locale element name) :
    (tree.listing? element).isSome := by
  obtain ⟨⟨entries, listed, -⟩, -⟩ := offers
  rw [listed]
  rfl

theorem sound_of_mem_directoriesFor {directory : Text}
    (absolute : ∀ element ∈ SearchPath.entries path, element.head? = some '/')
    (member : directory ∈ directoriesFor tree locale path) : Sound tree locale path directory := by
  obtain ⟨element, cut, ⟨name, offers, rfl⟩ | ⟨english, listed, rfl⟩⟩ := mem_directoriesFor.mp member
  · have filled := mem_entries_of_listing? cut offers.listing?
    exact ⟨head?_entryPath (absolute element filled) name, offers.2.2.1,
      .inr ⟨element, filled, name, offers, rfl⟩⟩
  · have filled := mem_entries_of_listing? cut listed
    exact ⟨absolute directory filled, FileTree.isDirectory_of_listing? listed,
      .inl ⟨english, filled⟩⟩

/-! ## Names that come apart -/

/-- A name comes apart at its first colon: the part before it stays in its hierarchy, and the part
    behind it has elements of its own. -/
theorem entries_entryPath (rest : Text) (whole : ':' ∉ element) (noColon : ':' ∉ stem) :
    SearchPath.entries (entryPath element (stem ++ ':' :: rest)) =
      entryPath element stem :: SearchPath.entries rest := by
  have apart : entryPath element (stem ++ ':' :: rest) = entryPath element stem ++ ':' :: rest := by
    unfold entryPath
    split <;> simp
  rw [apart, SearchPath.entries_append_colon,
    SearchPath.entries_of_whole (entryPath_ne_nil element stem) (colon_notMem_entryPath whole noColon)]
  rfl

theorem relative_of_mem_entries (noSlash : '/' ∉ rest) (member : entry ∈ SearchPath.entries rest) :
    entry.head? ≠ some '/' := by
  intro absolute
  have inside := of_mem_splitOnP (List.mem_of_mem_filter member) '/' (List.mem_of_head? absolute)
  exact noSlash inside.1

/-- A name with colons at its end only, without which it leads to what belongs into the search path. -/
def EndsInColons (tree : FileTree) (locale : Locale) (path element name : Text) : Prop :=
  ∃ stem colons, name = stem ++ colons ∧ ':' ∉ stem ∧ (∀ c ∈ colons, c = ':') ∧
    Sound tree locale path (entryPath element stem)

/-- All that a name with a colon comes to belongs into the search path exactly if there is nothing
    behind its colons. -/
theorem sound_pieces_iff {name : Text} (whole : ':' ∉ element) (noSlash : '/' ∉ name)
    (colon : ':' ∈ name) :
    (∀ piece ∈ SearchPath.entries (entryPath element name), Sound tree locale path piece) ↔
      EndsInColons tree locale path element name := by
  constructor
  · intro sound
    obtain ⟨stem, rest, rfl, noColon⟩ := List.eq_append_cons_of_mem colon
    rw [entries_entryPath rest whole noColon, List.forall_mem_cons] at sound
    -- a piece behind the colon would be relative
    have nothing : SearchPath.entries rest = [] := by
      rw [List.eq_nil_iff_forall_not_mem]
      intro piece member
      have inRest : '/' ∉ rest := fun slash => noSlash (by simp [slash])
      exact relative_of_mem_entries inRest member (sound.2 piece member).absolute
    exact ⟨stem, ':' :: rest, rfl, noColon,
      List.forall_mem_cons.mpr ⟨rfl, SearchPath.entries_eq_nil_iff.mp nothing⟩, sound.1⟩
  · rintro ⟨stem, colons, rfl, noColon, only, sound⟩
    cases colons with
    | nil => exact absurd colon (by simpa using noColon)
    | cons c more =>
      obtain ⟨rfl, others⟩ := List.forall_mem_cons.mp only
      rw [entries_entryPath more whole noColon, SearchPath.entries_eq_nil_iff.mpr others]
      exact List.forall_mem_singleton.mpr sound

/-! ## The search path of a locale -/

/-- The entries of the search path of a locale, with those that a name with a colon comes to. -/
theorem mem_entries_forLocale? {name : Text} (notC : (Locale.parse name).language ≠ "C".toList)
    (notPosix : (Locale.parse name).language ≠ "POSIX".toList) :
    entry ∈ SearchPath.entries ((forLocale? tree path name).value.getD []) ↔
      ∃ directory ∈ directoriesFor tree (Locale.parse name) path,
        entry ∈ SearchPath.entries directory :=
  mem_entries_of_translated (isUntranslated_eq_false notC notPosix)

theorem slash_notMem_of_offers {name : Text} (legal : tree.root.allNames (FileName ·) = true)
    (offers : Offers tree locale element name) : '/' ∉ name := by
  have fileName : FileName (Octets.encode name) := of_decide_eq_true (offers.test_name legal)
  exact fun slash => fileName.noSlash (Octets.slash_mem_encode.mpr slash)

/-- An entry of the search path of a locale belongs there unless it is a piece of a directory with a
    colon in its name. -/
theorem sound_or_piece {name : Text}
    (absolute : ∀ element ∈ SearchPath.entries path, element.head? = some '/')
    (notC : (Locale.parse name).language ≠ "C".toList)
    (notPosix : (Locale.parse name).language ≠ "POSIX".toList)
    (member : entry ∈ SearchPath.entries ((forLocale? tree path name).value.getD [])) :
    Sound tree (Locale.parse name) path entry ∨
      ∃ element ∈ SearchPath.entries path, ∃ child, Offers tree (Locale.parse name) element child ∧
        ':' ∈ child ∧ entry ∈ SearchPath.entries (entryPath element child) := by
  obtain ⟨directory, found, inside⟩ := (mem_entries_forLocale? notC notPosix).mp member
  by_cases colon : ':' ∈ directory
  · right
    obtain ⟨element, cut, ⟨child, offers, rfl⟩ | ⟨-, -, rfl⟩⟩ := mem_directoriesFor.mp found
    · refine ⟨element, mem_entries_of_listing? cut offers.listing?, child, offers, ?_, inside⟩
      by_contra noColon
      exact colon_notMem_entryPath (SearchPath.colon_notMem_of_mem_segments cut) noColon colon
    · exact absurd colon (SearchPath.colon_notMem_of_mem_segments cut)
  · left
    have written : directory ≠ [] := fun empty => nil_notMem_directoriesFor path (empty ▸ found)
    rw [SearchPath.entries_of_whole written colon, List.mem_singleton] at inside
    rw [inside]
    exact sound_of_mem_directoriesFor absolute found

/-- In a tree of names that an operating system allows, and for a path of absolute directories, every
    entry of the search path of a locale belongs there or is a piece of a directory of translated
    pages with a colon in its name.  All of them belong there exactly if such names end in their
    colons and lead to what belongs there without them. -/
theorem sound_forLocale?_iff (tree : FileTree) (path name : Text)
    (legal : tree.root.allNames (FileName ·) = true)
    (absolute : ∀ element ∈ SearchPath.entries path, element.head? = some '/')
    (notC : (Locale.parse name).language ≠ "C".toList)
    (notPosix : (Locale.parse name).language ≠ "POSIX".toList) :
    let locale := Locale.parse name
    let listed := SearchPath.entries ((forLocale? tree path name).value.getD [])
    (∀ entry ∈ listed, Sound tree locale path entry ∨
      ∃ element ∈ SearchPath.entries path, ∃ child, Offers tree locale element child ∧ ':' ∈ child ∧
        entry ∈ SearchPath.entries (entryPath element child)) ∧
    ((∀ entry ∈ listed, Sound tree locale path entry) ↔
      ∀ element ∈ SearchPath.entries path, ∀ child, Offers tree locale element child → ':' ∈ child →
        EndsInColons tree locale path element child) := by
  intro locale listed
  have pieces {element child : Text} (cut : element ∈ SearchPath.entries path)
      (offers : Offers tree locale element child) (colon : ':' ∈ child) :
      (∀ piece ∈ SearchPath.entries (entryPath element child), Sound tree locale path piece) ↔
        EndsInColons tree locale path element child :=
    sound_pieces_iff (SearchPath.colon_notMem_of_mem_segments (List.mem_of_mem_filter cut))
      (slash_notMem_of_offers legal offers) colon
  refine ⟨fun entry member => sound_or_piece absolute notC notPosix member,
    fun sound element cut child offers colon => ?_, fun harmless entry member => ?_⟩
  · rw [← pieces cut offers colon]
    intro piece inside
    have found : entryPath element child ∈ directoriesFor tree locale path :=
      mem_directoriesFor.mpr ⟨element, List.mem_of_mem_filter cut, .inl ⟨child, offers, rfl⟩⟩
    exact sound piece ((mem_entries_forLocale? notC notPosix).mpr ⟨_, found, inside⟩)
  · obtain sound | ⟨element, cut, child, offers, colon, inside⟩ :=
      sound_or_piece absolute notC notPosix member
    · exact sound
    · exact (pieces cut offers colon).mpr (harmless element cut child offers colon) entry inside

/-- A hierarchy with German pages whose codeset has a colon at its end, which is a link to the ones
    without it, and with pages of a section. -/
def linkedCodeset : FileTree where
  root := .directory [
    (Octets.encode "usr".toList, .directory [
      (Octets.encode "de.x:".toList, .link (Octets.encode "de.x".toList)),
      (Octets.encode "man:1".toList, .directory []),
      (Octets.encode "de.x".toList, .directory [])])]

/-- The link leads to the directory that its name comes to. -/
theorem sound_forLocale?_of_linked_codeset :
    let path := "/usr::".toList
    let name := "de_DE.UTF-8".toList
    linkedCodeset.root.allNames (FileName ·) = true ∧
      (∀ element ∈ SearchPath.entries path, element.head? = some '/') ∧
      (Locale.parse name).language ≠ "C".toList ∧ (Locale.parse name).language ≠ "POSIX".toList ∧
      (∀ entry ∈ SearchPath.entries ((forLocale? linkedCodeset path name).value.getD []),
        Sound linkedCodeset (Locale.parse name) path entry) ∧
      "/usr/de.x".toList ∈ SearchPath.entries ((forLocale? linkedCodeset path name).value.getD []) := by
  intro path name
  have legal : linkedCodeset.root.allNames (FileName ·) = true := by decide
  have absolute : ∀ element ∈ SearchPath.entries path, element.head? = some '/' := by decide
  have notC : (Locale.parse name).language ≠ "C".toList := by decide
  have notPosix : (Locale.parse name).language ≠ "POSIX".toList := by decide
  have found : linkedCodeset.listing? "/usr".toList = some [
      (Octets.encode "de.x:".toList, .link (Octets.encode "de.x".toList)),
      (Octets.encode "man:1".toList, .directory []),
      (Octets.encode "de.x".toList, .directory [])] := rfl
  have offers : Offers linkedCodeset (Locale.parse name) "/usr".toList "de.x".toList :=
    ⟨⟨_, rfl, by decide⟩, by decide⟩
  have offersLink : Offers linkedCodeset (Locale.parse name) "/usr".toList "de.x:".toList :=
    ⟨⟨_, rfl, by decide⟩, by decide⟩
  have ends : EndsInColons linkedCodeset (Locale.parse name) path "/usr".toList "de.x:".toList :=
    ⟨"de.x".toList, ":".toList, rfl, by decide, by simp, rfl, by decide,
      .inr ⟨"/usr".toList, by decide, "de.x".toList, offers, rfl⟩⟩
  have outcome := sound_forLocale?_iff linkedCodeset path name legal absolute notC notPosix
  refine ⟨legal, absolute, notC, notPosix, outcome.2.mpr ?_, ?_⟩
  · intro element cut child offered colon
    have elements : SearchPath.entries path = ["/usr".toList] := by decide
    obtain rfl := List.mem_singleton.mp (elements ▸ cut)
    obtain ⟨⟨entries, listed, inside⟩, serves⟩ := offered
    obtain rfl := Option.some.inj (found.symm.trans listed)
    simp only [List.map_cons, List.map_nil, List.mem_cons, Octets.encode_inj, List.not_mem_nil,
      or_false] at inside
    obtain rfl | rfl | rfl := inside
    · exact ends
    · exact absurd serves (by decide)
    · exact absurd colon (by decide)
  · refine (mem_entries_forLocale? notC notPosix).mpr ⟨"/usr/de.x:".toList, ?_, by decide⟩
    exact mem_directoriesFor.mpr ⟨"/usr".toList, by decide, .inl ⟨"de.x:".toList, offersLink, rfl⟩⟩

/-- A hierarchy whose German pages have a codeset with a colon inside. -/
def brokenCodeset : FileTree where
  root := .directory [
    (Octets.encode "m".toList, .directory [(Octets.encode "de.x:evil".toList, .directory [])])]

/-- Its search path has two entries, of which the first does not exist and the second is relative. -/
theorem forLocale?_of_broken_codeset :
    brokenCodeset.root.allNames (FileName ·) = true ∧
      (forLocale? brokenCodeset "/m".toList "de".toList).value = some "/m/de.x:evil".toList ∧
      SearchPath.entries "/m/de.x:evil".toList = ["/m/de.x".toList, "evil".toList] ∧
      brokenCodeset.isDirectory "/m/de.x".toList = false ∧
      brokenCodeset.isDirectory "evil".toList = false ∧ "evil".toList.head? ≠ some '/' := by
  have names : brokenCodeset.names? "/m".toList = some ["de.x:evil".toList] :=
    FileTree.names?_of_listing_singleton rfl (Octets.decode?_encode _)
  have found : candidates brokenCodeset (Locale.parse "de".toList) "/m".toList =
      ["/m/de.x:evil".toList] := by
    change ofElement brokenCodeset _ "/m".toList ++ [] = _
    rw [ofElement, names]
    decide
  refine ⟨by decide, ?_, by decide, by decide, by decide, by decide⟩
  rw [forLocale?_value, found]
  decide

end LocaleDirectories

end ManualPages
