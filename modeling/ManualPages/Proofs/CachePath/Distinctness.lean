import ManualPages.Proofs.CachePath.Positions

/-! # Cache paths of different names

Two names that one record serves have different cache paths, except where renaming makes them alike:
at the start of the part behind the cut one has the directory of pages and the other that of formatted
pages.  Each name is cut by itself, but where it is cut depends only on where its slashes are
(`length_cut_eq`), and renaming leaves them where they are, so the path tells where the name was cut.

* `slashes`, `length_cut_eq` — where a text has slashes, and that the cut depends on nothing else.
* `Renamed.slashes_eq`, `slashes_ofName` — the slashes of what is renamed, and of a cache path.
* `Counterparts`, `formattedRest_eq_iff` — rests of names that become the same.
* `ofName_eq_iff` — names of one hierarchy that have the same path.
* `Unformatted`, `Siblings` — names without directories of formatted pages; those of them that are
  counterparts lie directly in the hierarchy.
* `cachePath?_eq_iff_counterparts` — when two names have the same cache path, and how long it is.
* `cachePath?_eq_of_siblings` — two pages that lie directly in a hierarchy.
-/

namespace ManualPages

namespace CachePath

/-! ## Slashes -/

def slashes (t : Text) : List Bool := t.map (· = '/')

@[simp] theorem slashes_append (before behind : Text) :
    slashes (before ++ behind) = slashes before ++ slashes behind :=
  List.map_append

@[simp] theorem length_slashes (t : Text) : (slashes t).length = t.length := List.length_map _

theorem slashes_eq_nil_iff {t : Text} : slashes t = [] ↔ t = [] := List.map_eq_nil_iff

theorem head?_slashes {t : Text} : (slashes t).head? = some true ↔ t.head? = some '/' := by
  cases t <;> simp [slashes]

variable {one other rest before tail ending : Text}

theorem count_eq_of_slashes (same : slashes one = slashes other) :
    one.count '/' = other.count '/' := by
  have counted (t : Text) : t.count '/' = (slashes t).countP id := by
    rw [slashes, List.countP_map, List.count]
    rfl
  rw [counted, counted, same]

theorem slash_mem_iff_of_slashes (same : slashes one = slashes other) :
    '/' ∈ one ↔ '/' ∈ other := by
  rw [← List.count_pos_iff, ← List.count_pos_iff, count_eq_of_slashes same]

theorem length_cut_eq (same : slashes one = slashes other) :
    (cut one).1.length = (cut other).1.length := by
  induction one generalizing other with
  | nil =>
    obtain rfl : other = [] := by simpa [slashes] using same.symm
    rfl
  | cons c rest ih =>
    cases other with
    | nil => simp [slashes] at same
    | cons d more =>
      have counts := count_eq_of_slashes same
      obtain ⟨first, later⟩ : decide (c = '/') = decide (d = '/') ∧ slashes rest = slashes more :=
        List.cons.inj same
      have firsts : c = '/' ↔ d = '/' := decide_eq_decide.mp first
      -- both are cut at the same of the three places
      rw [cut, cut]
      simp only [firsts, counts, count_eq_of_slashes later]
      split
      · rfl
      split
      · rfl
      · simp [ih later]

/-- What is behind the cut can be replaced by a text with the same slashes. -/
theorem CutsAt.of_slashes {tail' : Text} (cuts : CutsAt (before ++ tail) before tail)
    (same : slashes tail = slashes tail') : CutsAt (before ++ tail') before tail' := by
  have lengths : (cut (before ++ tail)).1.length = (cut (before ++ tail')).1.length :=
    length_cut_eq (by simp [same])
  rw [cutsAt_iff.mp cuts] at lengths
  have whole := (cutsAt_cut (before ++ tail')).append_eq
  obtain ⟨sameBefore, sameTail⟩ := List.append_inj whole lengths.symm
  rw [cutsAt_iff]
  exact Prod.ext sameBefore sameTail

theorem slashes_pages (rest : Text) :
    slashes ("man".toList ++ rest) = slashes ("cat".toList ++ rest) := by
  simp [slashes]

theorem Renamed.slashes_eq (renamed : Renamed tail ending) : slashes ending = slashes tail := by
  cases renamed with
  | pages rest => exact (slashes_pages rest).symm
  | kept => rfl

theorem slashes_formattedRest (rest : Text) : slashes (formattedRest rest) = slashes rest := by
  rw [formattedRest, slashes_append, (renamed_formattedTail _).slashes_eq, ← slashes_append,
    (cutsAt_cut rest).append_eq]

theorem slashes_ofName (cache name rest : Text) :
    slashes (ofName cache name rest) = slashes cache ++ slashes rest := by
  by_cases slash : '/' ∈ name
  · rw [ofName_of_mem slash, slashes_append, slashes_formattedRest]
  · rw [ofName_of_notMem slash, slashes_append]

/-! ## Counterparts -/

/-- Rests that differ only in that, at the start of the part behind the cut, the one has the directory
    of pages where the other has that of formatted pages. -/
inductive Counterparts : Text → Text → Prop
  | intro {before rest : Text}
      (cuts : CutsAt (before ++ ("man".toList ++ rest)) before ("man".toList ++ rest)) :
      Counterparts (before ++ ("man".toList ++ rest)) (before ++ ("cat".toList ++ rest))

theorem Counterparts.slashes_eq (counterparts : Counterparts one other) :
    slashes one = slashes other := by
  cases counterparts with
  | @intro before rest _ => rw [slashes_append before, slashes_append before, slashes_pages]

theorem not_pages_prefix_formatted (rest : Text) : ¬ "man".toList <+: "cat".toList ++ rest := by
  simp

/-- Tails that are renamed to the same are the same, or one has pages where the other is formatted. -/
theorem Renamed.eq_or {one other : Text} (first : Renamed one ending)
    (second : Renamed other ending) :
    one = other ∨ ∃ rest, (one = "man".toList ++ rest ∧ other = "cat".toList ++ rest) ∨
      (other = "man".toList ++ rest ∧ one = "cat".toList ++ rest) := by
  cases first with
  | pages rest =>
    generalize same : "cat".toList ++ rest = ending at second
    cases second with
    | pages rest' => exact .inl (by rw [List.append_cancel_left same])
    | kept => exact .inr ⟨rest, .inl ⟨rfl, same.symm⟩⟩
  | kept =>
    cases second with
    | pages rest => exact .inr ⟨rest, .inr ⟨rfl, rfl⟩⟩
    | kept => exact .inl rfl

theorem Counterparts.formattedRest_eq (counterparts : Counterparts one other) :
    formattedRest one = formattedRest other := by
  cases counterparts with
  | @intro before rest cuts =>
    have cutsOther := cuts.of_slashes (slashes_pages rest)
    have renamed := renamed_iff.mp (Renamed.pages rest)
    have kept := renamed_iff.mp (Renamed.kept (not_pages_prefix_formatted rest))
    rw [formattedRest, formattedRest, cutsAt_iff.mp cuts, cutsAt_iff.mp cutsOther, renamed, kept]

theorem formattedRest_eq_iff :
    formattedRest one = formattedRest other ↔
      one = other ∨ Counterparts one other ∨ Counterparts other one := by
  constructor
  · intro same
    have slashesEq : slashes one = slashes other := by
      rw [← slashes_formattedRest one, same, slashes_formattedRest]
    obtain ⟨before, tail, cuts⟩ : ∃ before tail, CutsAt one before tail := ⟨_, _, cutsAt_cut one⟩
    obtain ⟨before', tail', cutsOther⟩ : ∃ before tail, CutsAt other before tail :=
      ⟨_, _, cutsAt_cut other⟩
    have lengths := length_cut_eq slashesEq
    rw [formattedRest, formattedRest, cutsAt_iff.mp cuts, cutsAt_iff.mp cutsOther] at same
    rw [cutsAt_iff.mp cuts, cutsAt_iff.mp cutsOther] at lengths
    -- both are cut at one place, so they become the same part by part
    obtain ⟨rfl, sameTail⟩ := List.append_inj same lengths
    obtain rfl := cuts.append_eq
    obtain rfl := cutsOther.append_eq
    have renamed := renamed_formattedTail tail
    rw [sameTail] at renamed
    obtain rfl | ⟨rest, ⟨rfl, rfl⟩ | ⟨rfl, rfl⟩⟩ := renamed.eq_or (renamed_formattedTail tail')
    · exact .inl rfl
    · exact .inr (.inl (.intro cuts))
    · exact .inr (.inr (.intro cutsOther))
  · rintro (rfl | counterparts | counterparts)
    · rfl
    · exact counterparts.formattedRest_eq
    · exact counterparts.formattedRest_eq.symm

theorem Counterparts.ofName_eq (cache : Text) {key : Text} (slash : '/' ∈ key ++ one)
    (counterparts : Counterparts one other) :
    ofName cache (key ++ one) one = ofName cache (key ++ other) other := by
  have slashOther : '/' ∈ key ++ other :=
    (slash_mem_iff_of_slashes (by simp [counterparts.slashes_eq])).mp slash
  rw [ofName_of_mem slash, ofName_of_mem slashOther, counterparts.formattedRest_eq]

theorem ofName_eq_iff (cache key : Text) :
    ofName cache (key ++ one) one = ofName cache (key ++ other) other ↔
      one = other ∨ '/' ∈ key ++ one ∧ Counterparts one other ∨
        '/' ∈ key ++ other ∧ Counterparts other one := by
  constructor
  · intro same
    have slashesEq : slashes one = slashes other := by
      have both := congrArg slashes same
      rw [slashes_ofName, slashes_ofName] at both
      exact List.append_cancel_left both
    have alike : '/' ∈ key ++ one ↔ '/' ∈ key ++ other :=
      slash_mem_iff_of_slashes (by simp [slashesEq])
    by_cases slash : '/' ∈ key ++ one
    · have slashOther := alike.mp slash
      rw [ofName_of_mem slash, ofName_of_mem slashOther] at same
      obtain equal | counterparts | counterparts :=
        formattedRest_eq_iff.mp (List.append_cancel_left same)
      · exact .inl equal
      · exact .inr (.inl ⟨slash, counterparts⟩)
      · exact .inr (.inr ⟨slashOther, counterparts⟩)
    · rw [ofName_of_notMem slash, ofName_of_notMem (mt alike.mpr slash)] at same
      exact .inl (List.append_cancel_left same)
  · rintro (rfl | ⟨slash, counterparts⟩ | ⟨slash, counterparts⟩)
    · rfl
    · exact counterparts.ofName_eq cache slash
    · exact (counterparts.ofName_eq cache slash).symm

/-! ## Directories of formatted pages -/

/-- The directories that the rest of a name leads through. -/
def directories (rest : Text) : List Text := (rest.splitOn '/').dropLast

theorem directories_append_slash (before rest : Text) :
    directories (before ++ '/' :: rest) = before.splitOn '/' ++ directories rest := by
  rw [directories, List.splitOn_append_cons_self,
    List.dropLast_append_of_ne_nil (List.splitOn_ne_nil '/' rest)]
  rfl

theorem mem_directories {first more : Text} (noSlash : '/' ∉ first) :
    first ∈ directories (first ++ '/' :: more) := by
  rw [directories_append_slash, List.splitOn_eq_singleton noSlash]
  exact List.mem_cons_self

/-- The rest of a name that leads into no directory that begins as those of formatted pages do. -/
def Unformatted (rest : Text) : Prop := ∀ directory ∈ directories rest, ¬ "cat".toList <+: directory

instance (rest : Text) : Decidable (Unformatted rest) := List.decidableBAll _ _

/-- Counterparts that lead into no directory at all: behind the hierarchy, or a slash, there is only a
    last name. -/
inductive Siblings : Text → Text → Prop
  | intro {before rest : Text} : before = [] ∨ before = ['/'] → '/' ∉ rest →
      Siblings (before ++ ("man".toList ++ rest)) (before ++ ("cat".toList ++ rest))

/-- A cut is at the beginning or behind a slash. -/
theorem CutsAt.before_eq (cuts : CutsAt rest before tail) :
    before = [] ∨ ∃ earlier, before = earlier ++ ['/'] := by
  cases cuts with
  | second earlier => exact .inr ⟨earlier, rfl⟩
  | only => exact .inr ⟨[], rfl⟩
  | nowhere => exact .inl rfl

/-- Before a tail without slashes there is at most one slash, and nothing else. -/
theorem CutsAt.before_eq_of_notMem (cuts : CutsAt rest before tail) (noSlash : '/' ∉ tail) :
    before = [] ∨ before = ['/'] := by
  cases cuts with
  | second => simp at noSlash
  | only => exact .inr rfl
  | nowhere => exact .inl rfl

theorem Siblings.counterparts (siblings : Siblings one other) : Counterparts one other := by
  cases siblings with
  | @intro before rest first noSlash =>
    refine .intro ?_
    obtain rfl | rfl := first
    · exact .nowhere (by simp [List.count_eq_zero_of_not_mem noSlash]) (by simp)
    · exact .only (by simp [noSlash])

/-- Only siblings are counterparts where no directory is one of formatted pages. -/
theorem Counterparts.siblings (counterparts : Counterparts one other) (plain : Unformatted other) :
    Siblings one other := by
  cases counterparts with
  | @intro before rest cuts =>
    by_cases slash : '/' ∈ rest
    · -- the tail begins with the directory of formatted pages
      obtain ⟨first, more, rfl, noSlash⟩ := List.eq_append_cons_of_mem slash
      have formatted : "cat".toList ++ first ∈ directories ("cat".toList ++ (first ++ '/' :: more)) := by
        rw [← List.append_assoc]
        exact mem_directories (by simp [noSlash])
      refine absurd (List.prefix_append _ _) (plain ("cat".toList ++ first) ?_)
      obtain rfl | ⟨earlier, rfl⟩ := cuts.before_eq
      · exact formatted
      · rw [List.append_assoc, List.singleton_append, directories_append_slash]
        exact List.mem_append_right _ formatted
    · exact .intro (cuts.before_eq_of_notMem (by simp [slash])) slash

theorem counterparts_iff_of_unformatted (plain : Unformatted other) :
    Counterparts one other ↔ Siblings one other :=
  ⟨fun counterparts => counterparts.siblings plain, Siblings.counterparts⟩

/-! ## Lengths -/

open Octets (encode)

theorem Renamed.length_encode (renamed : Renamed tail ending) :
    (encode ending).length = (encode tail).length := by
  cases renamed with
  | pages rest =>
    have words : (encode "cat".toList).length = (encode "man".toList).length := by decide
    rw [Octets.encode_append, Octets.encode_append, List.length_append, List.length_append, words]
  | kept => rfl

theorem length_encode_formattedRest (rest : Text) :
    (encode (formattedRest rest)).length = (encode rest).length := by
  have whole := congrArg encode (cutsAt_cut rest).append_eq
  rw [formattedRest, ← whole, Octets.encode_append, Octets.encode_append, List.length_append,
    List.length_append, (renamed_formattedTail _).length_encode]

/-- The path takes as many octets more or less than the name as the cache directory does than the
    hierarchy. -/
theorem length_encode_ofName (cache key rest : Text) :
    (encode (ofName cache (key ++ rest) rest)).length + (encode key).length =
      (encode cache).length + (encode (key ++ rest)).length := by
  have behind : (encode (ofName cache (key ++ rest) rest)).length =
      (encode cache).length + (encode rest).length := by
    by_cases slash : '/' ∈ key ++ rest
    · rw [ofName_of_mem slash, Octets.encode_append, List.length_append, length_encode_formattedRest]
    · rw [ofName_of_notMem slash, Octets.encode_append, List.length_append]
  rw [behind, Octets.encode_append, List.length_append]
  omega

theorem length_ofName (cache key rest : Text) :
    (ofName cache (key ++ rest) rest).length + key.length = cache.length + (key ++ rest).length := by
  have lengths := congrArg List.length (slashes_ofName cache (key ++ rest) rest)
  simp only [List.length_append, length_slashes] at lengths ⊢
  omega

end CachePath

/-! ## Names of one record -/

open CachePath (CutsAt ofName_eq_iff length_ofName length_encode_ofName)
open Octets (encode)

/-- Names below the hierarchy of a record whose rests are counterparts.  A name without any slash is
    not cut and has none. -/
def Record.Counterparts (record : Record) (name other : Text) : Prop :=
  '/' ∈ name ∧ ∃ rest rest', name = record.key ++ rest ∧ other = record.key ++ rest' ∧
    CachePath.Counterparts rest rest'

/-- Counterparts that lie directly in the hierarchy of a record. -/
def Record.Siblings (record : Record) (name other : Text) : Prop :=
  '/' ∈ name ∧ ∃ rest rest', name = record.key ++ rest ∧ other = record.key ++ rest' ∧
    CachePath.Siblings rest rest'

/-- A name that leads into no directory of formatted pages below the hierarchy of a record. -/
def Record.Unformatted (record : Record) (name : Text) : Prop :=
  ∃ rest, name = record.key ++ rest ∧ CachePath.Unformatted rest

theorem Record.counterparts_iff {record : Record} {rest rest' : Text} :
    record.Counterparts (record.key ++ rest) (record.key ++ rest') ↔
      '/' ∈ record.key ++ rest ∧ CachePath.Counterparts rest rest' := by
  constructor
  · rintro ⟨slash, one, other, same, sameOther, counterparts⟩
    obtain rfl := List.append_cancel_left same
    obtain rfl := List.append_cancel_left sameOther
    exact ⟨slash, counterparts⟩
  · rintro ⟨slash, counterparts⟩
    exact ⟨slash, rest, rest', rfl, rfl, counterparts⟩

theorem Record.counterparts_iff_of_unformatted {record : Record} {name other : Text}
    (unformatted : record.Unformatted other) :
    record.Counterparts name other ↔ record.Siblings name other := by
  obtain ⟨rest, rfl, plain⟩ := unformatted
  refine and_congr_right fun _ => exists_congr fun first => exists_congr fun second => ?_
  refine and_congr_right fun _ => and_congr_right fun same => ?_
  obtain rfl := List.append_cancel_left same
  exact CachePath.counterparts_iff_of_unformatted plain

/-- Two names that one record serves have the same cache path exactly if they are the same or
    counterparts.  So where no directory below the hierarchy is one of formatted pages, the path tells
    all pages apart but siblings: two that lie directly in the hierarchy.  A path is longer than the
    cache directory by as much as the name is longer than the hierarchy, in characters and in
    octets. -/
theorem cachePath?_eq_iff_counterparts (catalog : Catalog) (filter : OwnerFilter) (record : Record)
    (name other : Text) (serves : catalog.Serves filter name record)
    (servesOther : catalog.Serves filter other record) :
    ∃ path path', catalog.cachePath? name filter = some path ∧
      catalog.cachePath? other filter = some path' ∧
      (path = path' ↔ name = other ∨ record.Counterparts name other ∨ record.Counterparts other name) ∧
      (record.Unformatted name → record.Unformatted other →
        (path = path' ↔ name = other ∨ record.Siblings name other ∨ record.Siblings other name)) ∧
      path.length + record.key.length = record.content.length + name.length ∧
      (encode path).length + (encode record.key).length =
        (encode record.content).length + (encode name).length := by
  obtain ⟨rest, rfl⟩ := serves.eligible.2
  obtain ⟨rest', rfl⟩ := servesOther.eligible.2
  have same : CachePath.ofName record.content (record.key ++ rest) rest =
        CachePath.ofName record.content (record.key ++ rest') rest' ↔
      record.key ++ rest = record.key ++ rest' ∨
        record.Counterparts (record.key ++ rest) (record.key ++ rest') ∨
        record.Counterparts (record.key ++ rest') (record.key ++ rest) := by
    rw [ofName_eq_iff, List.append_cancel_left_eq, Record.counterparts_iff, Record.counterparts_iff]
  refine ⟨_, _, Catalog.cachePath?_of_serves rest serves, Catalog.cachePath?_of_serves rest' servesOther,
    same, ?_, length_ofName .., length_encode_ofName ..⟩
  intro unformatted unformattedOther
  rw [same, Record.counterparts_iff_of_unformatted unformattedOther,
    Record.counterparts_iff_of_unformatted unformatted]

/-- Two pages of one hierarchy whose name ends in slashes, one of them formatted already. -/
theorem cachePath?_eq_of_formatted_page :
    let record : Record := ⟨"/usr/man//".toList, "/var/cache".toList, .cacheMap .system⟩
    let catalog : Catalog := ⟨[⟨"/usr".toList, "/mine".toList, .cacheMap .user⟩, record]⟩
    let name := "/usr/man//de/manö/ls.1".toList
    let other := "/usr/man//de/catö/ls.1".toList
    catalog.Serves .system name record ∧ catalog.Serves .system other record ∧ name ≠ other ∧
      record.Unformatted name ∧ ∃ path, catalog.cachePath? name .system = some path ∧
        catalog.cachePath? other .system = some path ∧
        path.length + 10 = 10 + name.length ∧
        (encode path).length + 10 = 10 + (encode name).length := by
  intro record catalog name other
  have serves : catalog.Serves .system name record := ⟨[_], [], rfl, by decide, by decide⟩
  have servesOther : catalog.Serves .system other record := ⟨[_], [], rfl, by decide, by decide⟩
  have cuts : CutsAt ("de/".toList ++ ("man".toList ++ "ö/ls.1".toList)) "de/".toList
      ("man".toList ++ "ö/ls.1".toList) := CachePath.cutsAt_iff.mpr (by decide)
  have counterparts : record.Counterparts name other :=
    ⟨by decide, _, _, by decide, by decide, .intro cuts⟩
  have unformatted : record.Unformatted name := ⟨"de/manö/ls.1".toList, by decide, by decide⟩
  obtain ⟨path, path', made, madeOther, same, -, length, octets⟩ :=
    cachePath?_eq_iff_counterparts catalog .system record name other serves servesOther
  obtain rfl := same.mpr (.inr (.inl counterparts))
  exact ⟨serves, servesOther, by decide, unformatted, path, made, madeOther, length, octets⟩

/-- Two pages that lie directly in the hierarchy have one cache path, though no directory of formatted
    pages is there. -/
theorem cachePath?_eq_of_siblings :
    let record : Record := ⟨"/usr/man".toList, "/var/cache".toList, .cacheMap .system⟩
    let catalog : Catalog := ⟨[record]⟩
    let name := "/usr/man/man.x".toList
    let other := "/usr/man/cat.x".toList
    catalog.Serves .system name record ∧ catalog.Serves .system other record ∧ name ≠ other ∧
      record.Unformatted name ∧ record.Unformatted other ∧
      catalog.cachePath? name .system = some "/var/cache/cat.x".toList ∧
      catalog.cachePath? other .system = some "/var/cache/cat.x".toList :=
  ⟨⟨[], [], rfl, by decide, by decide⟩, ⟨[], [], rfl, by decide, by decide⟩, by decide,
    ⟨"/man.x".toList, by decide, by decide⟩, ⟨"/cat.x".toList, by decide, by decide⟩,
    by decide, by decide⟩

end ManualPages
