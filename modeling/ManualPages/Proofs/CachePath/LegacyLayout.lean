import ManualPages.Proofs.CachePath.Serving

/-! # Cache paths in the older layout

A hierarchy that is mapped to its directory in the older layout has two ways to the cache path of a
page: the path of the page as a whole is taken over into the older layout segment by segment, or
the rest of it is copied behind the cache directory and only its end is renamed.  `cacheDirectory_below`
goes through the segments, `formattedRest_page` looks at the last two slashes; on pages of ordinary
names they come to the same.

* `below`, `Ordinary` — paths below a directory, and names that the older layout keeps.
* `ofSegments_append_slash`, `cacheDirectory_below` — the older layout of a path below a directory.
* `cacheDirectory_of_elsewhere` — a directory that the older layout does not take in.
* `flatMap_ofSegment_page`, `formattedRest_page` — the names that each way comes to.
* `cachePath?_eq_cacheDirectory` — the two derivations agree.
-/

namespace ManualPages

namespace Legacy

/-! ## Paths below a directory -/

/-- The path that names lead to from a directory. -/
def below (directory : Text) (names : List Text) : Text := directory ++ names.flatMap ('/' :: ·)

/-- A name that is neither the directory of a hierarchy nor one of pages. -/
structure Ordinary (name : Text) : Prop where
  nonempty : name ≠ []
  noSlash : '/' ∉ name
  notPages : ¬ "man".toList <+: name

variable {name suffix : Text}

theorem ofSegments_append_slash (before behind : Text) :
    ofSegments (before ++ '/' :: behind) = ofSegments before ++ ofSegments behind := by
  rw [ofSegments, List.splitOn_append_cons_self, List.filter_append, List.flatMap_append]
  rfl

theorem ofSegments_of_name (nonempty : name ≠ []) (noSlash : '/' ∉ name) :
    ofSegments name = ofSegment name := by
  simp [ofSegments, List.splitOn_eq_singleton noSlash, nonempty]

theorem ofSegments_below (rest : Text) {names : List Text}
    (plain : ∀ name ∈ names, name ≠ [] ∧ '/' ∉ name) :
    ofSegments (below rest names) = ofSegments rest ++ names.flatMap ofSegment := by
  induction names using List.reverseRecOn with
  | nil => simp [below]
  | append_singleton names name ih =>
    -- the last name is behind the last slash, which divides the segments
    have last : below rest (names ++ [name]) = below rest names ++ '/' :: name := by simp [below]
    obtain ⟨nonempty, noSlash⟩ := plain name (by simp)
    have others := ih fun other member => plain other (List.mem_append_left [name] member)
    rw [last, ofSegments_append_slash, others, ofSegments_of_name nonempty noSlash]
    simp

theorem cacheDirectory_root (rest : Text) :
    cacheDirectory (manualRoot ++ rest) = cacheRoot ++ ofSegments rest := by
  rw [cacheDirectory, cacheDirectory?, Text.isPrefixOf?_append]
  rfl

theorem cacheDirectory_of_elsewhere {directory : Text} (elsewhere : ¬ manualRoot <+: directory) :
    cacheDirectory directory = directory := by
  rw [cacheDirectory, cacheDirectory?, Text.isPrefixOf?_eq_none_iff.mpr elsewhere]
  rfl

/-- Names below a directory go behind its place in the older layout, one after the other. -/
theorem cacheDirectory_below {directory : Text} (root : manualRoot <+: directory)
    {names : List Text} (plain : ∀ name ∈ names, name ≠ [] ∧ '/' ∉ name) :
    cacheDirectory (below directory names) = cacheDirectory directory ++ names.flatMap ofSegment := by
  obtain ⟨rest, rfl⟩ := root
  have inside : below (manualRoot ++ rest) names = manualRoot ++ below rest names := by
    simp [below]
  rw [inside, cacheDirectory_root, cacheDirectory_root, ofSegments_below rest plain,
    List.append_assoc]

theorem ofSegment_of_ordinary (ordinary : Ordinary name) : ofSegment name = '/' :: name := by
  have kept : pages.isPrefixOf? name = none := Text.isPrefixOf?_eq_none_iff.mpr ordinary.notPages
  rw [ofSegment, kept]

theorem ofSegment_pages (nonempty : suffix ≠ []) :
    ofSegment (pages ++ suffix) = '/' :: (formatted ++ suffix) := by
  cases suffix with
  | nil => contradiction
  | cons c rest =>
    rw [ofSegment, Text.isPrefixOf?_append]
    rfl

/-! ## The rest of a name -/

open CachePath

theorem formattedTail_pages (tail : Text) : formattedTail (pages ++ tail) = formatted ++ tail := by
  rw [formattedTail, Text.isPrefixOf?_append]

/-! ## Names with the directory of pages renamed -/

section Renamed

variable {directories : List Text} {page : Text}

theorem flatMap_ofSegment_page (ordinary : ∀ directory ∈ directories, Ordinary directory)
    (ordinaryPage : Ordinary page) (nonempty : suffix ≠ []) :
    (directories ++ [pages ++ suffix, page]).flatMap ofSegment =
      (directories ++ [formatted ++ suffix, page]).flatMap ('/' :: ·) := by
  have kept : directories.flatMap ofSegment = directories.flatMap ('/' :: ·) :=
    List.flatMap_congr fun directory member => ofSegment_of_ordinary (ordinary directory member)
  simp only [List.flatMap_append, List.flatMap_cons, List.flatMap_nil, kept,
    ofSegment_of_ordinary ordinaryPage, ofSegment_pages nonempty]

theorem formattedRest_page (directories : List Text) (noSlash : '/' ∉ suffix)
    (noOther : '/' ∉ page) :
    formattedRest ((directories ++ [pages ++ suffix, page]).flatMap ('/' :: ·)) =
      (directories ++ [formatted ++ suffix, page]).flatMap ('/' :: ·) := by
  have plain : '/' ∉ pages ++ suffix := by simpa [pages] using noSlash
  have lastTwo (names : Text) : (directories ++ [names, page]).flatMap ('/' :: ·) =
      directories.flatMap ('/' :: ·) ++ '/' :: (names ++ '/' :: page) := by simp
  rw [lastTwo, lastTwo, formattedRest, cut_second_slash _ plain noOther, List.append_assoc pages,
    formattedTail_pages]
  simp

theorem formattedRest_pages (noSlash : '/' ∉ suffix) :
    formattedRest ([pages ++ suffix].flatMap ('/' :: ·)) =
      [formatted ++ suffix].flatMap ('/' :: ·) := by
  have plain : '/' ∉ pages ++ suffix := by simpa [pages] using noSlash
  rw [List.flatMap_singleton, List.flatMap_singleton, formattedRest, cut_only_slash plain,
    formattedTail_pages]
  rfl

end Renamed

/-! ## Both derivations -/

/-- Where the segments and the rest of a name come to the same names, so do the cache path and the
    older layout. -/
theorem cachePath?_of_renamed {catalog : Catalog} {filter : OwnerFilter} {record : Record}
    {names renamed : List Text} (root : manualRoot <+: record.key)
    (legacy : record.content = cacheDirectory record.key) (nonempty : names ≠ [])
    (plain : ∀ name ∈ names, name ≠ [] ∧ '/' ∉ name)
    (bySegments : names.flatMap ofSegment = renamed.flatMap ('/' :: ·))
    (byRest : formattedRest (names.flatMap ('/' :: ·)) = renamed.flatMap ('/' :: ·))
    (serves : catalog.Serves filter (below record.key names) record) :
    catalog.cachePath? (below record.key names) filter =
        some (cacheDirectory (below record.key names)) ∧
      cacheDirectory (below record.key names) = below (cacheDirectory record.key) renamed := by
  have inLayout : cacheDirectory (below record.key names) =
      below (cacheDirectory record.key) renamed := by
    rw [cacheDirectory_below root plain, bySegments, below]
  have slash : '/' ∈ names.flatMap ('/' :: ·) := by
    obtain ⟨first, others, rfl⟩ := List.exists_cons_of_ne_nil nonempty
    simp
  refine ⟨?_, inLayout⟩
  rw [inLayout, below, Catalog.cachePath?_of_serves _ serves, ofName_of_slash _ _ slash, byRest,
    legacy, below]

/-- A record that maps a hierarchy to its place in the older layout gives each page, and each
    directory of pages, the cache path that the older layout gives it: the path below the place of
    the hierarchy, with the directory of pages renamed. -/
theorem cachePath?_eq_cacheDirectory (catalog : Catalog) (filter : OwnerFilter) (record : Record)
    (root : "/usr".toList <+: record.key) (legacy : record.content = cacheDirectory record.key)
    (suffix : Text) (nonempty : suffix ≠ []) (noSlash : '/' ∉ suffix) :
    (∀ directories page, (∀ directory ∈ directories, Ordinary directory) → Ordinary page →
      let name := below record.key (directories ++ ["man".toList ++ suffix, page])
      catalog.Serves filter name record →
        catalog.cachePath? name filter = some (cacheDirectory name) ∧
        cacheDirectory name =
          below (cacheDirectory record.key) (directories ++ ["cat".toList ++ suffix, page])) ∧
    (let name := below record.key ["man".toList ++ suffix]
     catalog.Serves filter name record →
      catalog.cachePath? name filter = some (cacheDirectory name) ∧
      cacheDirectory name = below (cacheDirectory record.key) ["cat".toList ++ suffix]) := by
  have plainPages : pages ++ suffix ≠ [] ∧ '/' ∉ pages ++ suffix :=
    ⟨by simp [pages], by simpa [pages] using noSlash⟩
  constructor
  · intro directories page ordinary ordinaryPage name serves
    have plain : ∀ name ∈ directories ++ [pages ++ suffix, page], name ≠ [] ∧ '/' ∉ name := by
      intro other member
      obtain inside | rfl | rfl : other ∈ directories ∨ other = pages ++ suffix ∨ other = page := by
        simpa using member
      · exact ⟨(ordinary other inside).nonempty, (ordinary other inside).noSlash⟩
      · exact plainPages
      · exact ⟨ordinaryPage.nonempty, ordinaryPage.noSlash⟩
    exact cachePath?_of_renamed root legacy (by simp) plain
      (flatMap_ofSegment_page ordinary ordinaryPage nonempty)
      (formattedRest_page directories noSlash ordinaryPage.noSlash) serves
  · intro name serves
    have plain : ∀ name ∈ [pages ++ suffix], name ≠ [] ∧ '/' ∉ name := by
      simpa using plainPages
    have bySegments : [pages ++ suffix].flatMap ofSegment =
        [formatted ++ suffix].flatMap ('/' :: ·) := by
      rw [List.flatMap_singleton, List.flatMap_singleton, ofSegment_pages nonempty]
    exact cachePath?_of_renamed root legacy (by simp) plain bySegments
      (formattedRest_pages noSlash) serves

/-- A hierarchy with two slashes in a row, mapped to its place in the older layout. -/
def doubledSlash : Record :=
  ⟨"/usr//X11/man".toList, "/var/catman/X11".toList, .cacheMap .system⟩

/-- A translated page and a directory of pages in that hierarchy. -/
theorem cachePath?_eq_cacheDirectory_of_doubled_slash :
    let catalog : Catalog := ⟨[⟨"/opt".toList, "/cache".toList, .cacheMap .user⟩, doubledSlash]⟩
    let page := "/usr//X11/man/de/man1x/xterm.1x".toList
    let directory := "/usr//X11/man/man1x".toList
    doubledSlash.content = cacheDirectory doubledSlash.key ∧
      catalog.Serves .all page doubledSlash ∧ catalog.Serves .all directory doubledSlash ∧
      catalog.cachePath? page .all = some (cacheDirectory page) ∧
      cacheDirectory page = "/var/catman/X11/de/cat1x/xterm.1x".toList ∧
      catalog.cachePath? directory .all = some (cacheDirectory directory) ∧
      cacheDirectory directory = "/var/catman/X11/cat1x".toList := by
  intro catalog page directory
  have legacy : doubledSlash.content = cacheDirectory doubledSlash.key := by decide
  have servesPage : catalog.Serves .all page doubledSlash :=
    ⟨[_], [], rfl, by decide, by decide⟩
  have servesDirectory : catalog.Serves .all directory doubledSlash :=
    ⟨[_], [], rfl, by decide, by decide⟩
  have ordinary : ∀ name ∈ ["de".toList], Ordinary name := by
    intro name member
    obtain rfl : name = "de".toList := by simpa using member
    exact ⟨by decide, by decide, by decide⟩
  have ordinaryPage : Ordinary "xterm.1x".toList := ⟨by decide, by decide, by decide⟩
  obtain ⟨pages, directories⟩ := cachePath?_eq_cacheDirectory catalog .all doubledSlash (by decide)
    legacy "1x".toList (by decide) (by decide)
  have agrees := pages ["de".toList] "xterm.1x".toList ordinary ordinaryPage servesPage
  have alsoAgrees := directories servesDirectory
  exact ⟨legacy, servesPage, servesDirectory, agrees.1, by decide, alsoAgrees.1, by decide⟩

end Legacy

end ManualPages
