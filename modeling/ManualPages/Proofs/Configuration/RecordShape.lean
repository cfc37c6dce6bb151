import ManualPages.Proofs.CachePath.LegacyLayout
import ManualPages.Proofs.Configuration.Loading
import ManualPages.Proofs.SearchPath.Appending
import ManualPages.Proofs.Text.Pieces

/-! # The shape of records

Whatever the configuration files hold, and however often they are read, the records that come from
them have one shape: keys and directories are words, and the value of a definition begins with none
of the blanks before it.  A line that is understood declares such records only, which is the one
step that looks at the reader of lines (`wellFormed_of_ofKeyword`); all else passes records on.

* `Record.WellFormed` — the shape of a record, by its subject.
* `Legacy.isWord_cacheDirectory`, `isWord_directoryFor` — the directories that lines ask for.
* `wellFormed_of_parse`, `wellFormed_of_mem_ofText` — what a line declares, and what a text does.
* `Change`, `afterChanges`, `wellFormed_afterChanges` — loads, readings and resets in any order.
* `mappedHierarchies?_eq_none_iff` — no mapped hierarchy goes missing among well-formed records.
* `records_wellFormed` — the shape after any changes, and what rests on it.
-/

namespace ManualPages

open Text (IsWord isBlank)

/-! ## Shapes -/

/-- What may stand beside the key of a record of a subject. -/
def Subject.Admits : Subject → Text → Prop
  | .programMap, content | .cacheMap _, content => IsWord content
  | .mandatory, content | .sections _, content => content = []
  | .definition _, content =>
    '\n' ∉ content ∧ ∀ c, content.head? = some c → isBlank c = false

structure Record.WellFormed (record : Record) : Prop where
  key : IsWord record.key
  content : record.subject.Admits record.content

/-! ## Directories in the older layout -/

namespace Legacy

theorem of_mem_ofSegment {segment : Text} {c : Char} (member : c ∈ ofSegment segment) :
    c ∈ '/' :: formatted ∨ c ∈ segment := by
  unfold ofSegment at member
  split at member
  · simp at member
  next name found =>
    obtain rfl := List.isPrefixOf?_eq_some_iff_append_eq.mp found
    rw [List.mem_append]
    exact (List.mem_append.mp member).imp_right .inr
  next kept =>
    rcases List.mem_cons.mp member with rfl | member
    · exact .inl (by decide)
    · exact .inr member

theorem of_mem_ofSegments {rest : Text} {c : Char} (member : c ∈ ofSegments rest) :
    c ∈ '/' :: formatted ∨ c ∈ rest := by
  obtain ⟨segment, cut, inside⟩ := List.mem_flatMap.mp member
  have piece := (List.mem_filter.mp cut).1
  exact (of_mem_ofSegment inside).imp_right fun found => (of_mem_splitOnP piece c found).1

/-- The place of a hierarchy in the older layout is a word if the hierarchy is one. -/
theorem isWord_cacheDirectory {directory : Text} (word : IsWord directory) :
    IsWord (cacheDirectory directory) := by
  by_cases below : manualRoot <+: directory
  · obtain ⟨rest, rfl⟩ := below
    rw [cacheDirectory_root]
    have root : ∀ c ∈ cacheRoot, isBlank c = false := Text.noBlank_of_all (by decide)
    have marks : ∀ c ∈ '/' :: formatted, isBlank c = false := Text.noBlank_of_all (by decide)
    refine ⟨List.append_ne_nil_of_left_ne_nil (by decide) _, fun c member => ?_⟩
    obtain fromRoot | fromRest := List.mem_append.mp member
    · exact root c fromRoot
    · obtain added | kept := of_mem_ofSegments fromRest
      · exact marks c added
      · exact word.noBlank c (List.mem_append_right manualRoot kept)
  · rw [cacheDirectory_of_elsewhere below]
    exact word

end Legacy

/-! ## Lines -/

theorem isWord_directoryFor {hierarchy : Text} {more : List Text} (word : IsWord hierarchy)
    (words : ∀ other ∈ more, IsWord other) :
    IsWord ((Declaration.targetOf more.head?).directoryFor hierarchy) := by
  cases more with
  | nil => exact word
  | cons target others =>
    rw [List.head?_cons, Declaration.targetOf]
    split
    · exact Legacy.isWord_cacheDirectory word
    · exact words target (by simp)

theorem admits_value {rest : Text} (unbroken : '\n' ∉ rest) (owner : Owner) :
    (Subject.definition owner).Admits
      (Text.trimStart (Text.splitWord (Text.trimStart rest)).2) := by
  have inside : Text.trimStart (Text.splitWord (Text.trimStart rest)).2 ⊆ rest :=
    List.Subset.trans (Text.trimStart_subset _)
      (List.Subset.trans (Text.splitWord_subset _) (Text.trimStart_subset rest))
  exact ⟨fun feed => unbroken (inside feed), fun c => Text.head?_trimStart⟩

theorem wellFormed_of_ofKeyword {keyword : Keyword} {rest : Text} {declaration : Declaration}
    (unbroken : '\n' ∉ rest) (declared : Declaration.ofKeyword keyword rest = .ok declaration)
    (owner : Owner) : ∀ record ∈ Entry.records ⟨owner, declaration⟩, record.WellFormed := by
  have words : ∀ word ∈ rest.words, IsWord word := fun _ => Text.isWord_of_mem_words
  -- the cases are those of the reader: a keyword, and as many words as it takes
  unfold Declaration.ofKeyword at declared
  split at declared
  next hierarchy more same =>
    obtain rfl := Except.ok.inj declared
    exact List.forall_mem_singleton.mpr ⟨words hierarchy (by simp [same]), rfl⟩
  next programs hierarchy more same =>
    obtain rfl := Except.ok.inj declared
    exact List.forall_mem_singleton.mpr
      ⟨words programs (by simp [same]), words hierarchy (by simp [same])⟩
  next hierarchy more same =>
    obtain rfl := Except.ok.inj declared
    have key : IsWord hierarchy := words hierarchy (by simp [same])
    have others : ∀ other ∈ more, IsWord other := fun other member =>
      words other (same ▸ List.mem_cons_of_mem hierarchy member)
    exact List.forall_mem_singleton.mpr ⟨key, isWord_directoryFor key others⟩
  next name more same =>
    obtain rfl := Except.ok.inj declared
    exact List.forall_mem_singleton.mpr
      ⟨words name (by simp [same]), admits_value unbroken owner⟩
  next name more same =>
    obtain rfl := Except.ok.inj declared
    intro record member
    obtain ⟨listed, named, rfl⟩ := List.mem_map.mp member
    exact ⟨words listed (same ▸ named), rfl⟩
  next which word more same =>
    split at declared
    · obtain rfl := Except.ok.inj declared
      simp [Entry.records]
    · contradiction
  · contradiction

/-- A line without a line feed in it declares well-formed records only. -/
theorem wellFormed_of_parse {line : Text} {declaration : Declaration} (unbroken : '\n' ∉ line)
    (parsed : Declaration.parse line = .ok (some declaration)) (owner : Owner) :
    ∀ record ∈ Entry.records ⟨owner, declaration⟩, record.WellFormed := by
  have inside : (Text.splitWord (Text.trimStart line)).2 ⊆ line :=
    List.Subset.trans (Text.splitWord_subset _) (Text.trimStart_subset line)
  simp only [Declaration.parse] at parsed
  split at parsed
  next ignored => cases parsed
  split at parsed
  next switch =>
    cases parsed
    simp [Entry.records]
  split at parsed
  next ignored => cases parsed
  split at parsed
  next ignored => cases parsed
  split at parsed
  next keyword found =>
    cases declared : Declaration.ofKeyword keyword (Text.splitWord (Text.trimStart line)).2 with
    | error fault => simp [declared, Except.map] at parsed
    | ok made =>
      obtain rfl : made = declaration := by simpa [declared, Except.map] using parsed
      exact wellFormed_of_ofKeyword (fun feed => unbroken (inside feed)) declared owner
  next unknown => cases parsed

/-! ## Files -/

namespace Reading

/-- All records of a reading are well-formed. -/
def WellFormed (reading : Reading) : Prop :=
  ∀ entry ∈ reading.entries, ∀ record ∈ entry.records, record.WellFormed

theorem wellFormed_ofText (owner : Owner) (path : Octets) (text : Text) :
    (ofText owner path text).WellFormed := by
  have entries_eq : (ofText owner path text).entries =
      (declarationsOf (text.lines.takeWhile Understood)).map (⟨owner, ·⟩) := by
    unfold ofText
    cases firstFault? text.lines <;> rfl
  intro entry member
  rw [entries_eq] at member
  obtain ⟨declaration, declared, rfl⟩ := List.mem_map.mp member
  obtain ⟨line, read, parsed⟩ := mem_declarationsOf.mp declared
  have unbroken := Text.feed_notMem_of_mem_lines ((List.takeWhile_subset _) read)
  exact wellFormed_of_parse unbroken parsed owner

theorem wellFormed_andThen {first second : Reading} (wellFormed : first.WellFormed)
    (next : second.WellFormed) : (first.andThen second).WellFormed := by
  unfold andThen
  split
  · exact wellFormed
  · exact fun entry member => (List.mem_append.mp member).elim (wellFormed entry) (next entry)

theorem wellFormed_of_nil {reading : Reading} (nothing : reading.entries = []) :
    reading.WellFormed := by
  simp [WellFormed, nothing]

theorem wellFormed_ofFiles (tree : FileTree) (options : ConfigFiles) (env : Environment) :
    (ofFiles tree options env).WellFormed := by
  refine wellFormed_andThen ?_ ?_
  · rw [ofUser_eq]
    split
    · exact wellFormed_of_nil rfl
    · exact wellFormed_ofText _ _ _
  · rw [ofSystem_eq]
    split
    · exact wellFormed_ofText _ _ _
    · split
      · split <;> exact wellFormed_of_nil rfl
      · exact wellFormed_of_nil rfl

end Reading

/-! ## Changes -/

/-- What may happen to a configuration, in any order and whether it fails or not. -/
inductive Change where
  | load (attempt : Attempt)
  | readText (text : Text) (path : Octets) (owner : Owner)
  | reset

def Change.run (config : Configuration) : Change → Outcome Configuration
  | .load attempt => attempt.run config
  | .readText text path owner => (config.readText text path owner).value
  | .reset => ⟨config.reset, none⟩

namespace Configuration

def afterChanges (config : Configuration) (changes : List Change) : Configuration :=
  changes.foldl (fun config change => (change.run config).state) config

def WellFormed (config : Configuration) : Prop :=
  ∀ record ∈ config.catalog.records, record.WellFormed

variable {config : Configuration}

theorem wellFormed_after (wellFormed : config.WellFormed) {reading : Reading}
    (next : reading.WellFormed) : (config.after reading.entries reading.sources).WellFormed := by
  intro record member
  obtain earlier | later := List.mem_append.mp member
  · exact wellFormed record earlier
  · obtain ⟨entry, read, declared⟩ := List.mem_flatMap.mp later
    exact next entry read record declared

theorem wellFormed_empty : empty.WellFormed := by
  simp [WellFormed, empty]

theorem wellFormed_run (wellFormed : config.WellFormed) (change : Change) :
    (change.run config).state.WellFormed := by
  cases change with
  | load attempt =>
    cases loaded : config.loaded with
    | true =>
      have nothing : (attempt.run config).state = config := by simp [Attempt.run, load, loaded]
      rw [Change.run, nothing]
      exact wellFormed
    | false =>
      rw [Change.run, run_of_unloaded attempt loaded]
      exact wellFormed_after wellFormed
        (Reading.wellFormed_ofFiles attempt.tree attempt.options attempt.env)
  | readText text path owner =>
    rw [Change.run, readText_value]
    exact wellFormed_after wellFormed (Reading.wellFormed_ofText owner path text)
  | reset => simp [Change.run, reset, WellFormed]

theorem wellFormed_afterChanges (wellFormed : config.WellFormed) (changes : List Change) :
    (config.afterChanges changes).WellFormed := by
  induction changes generalizing config with
  | nil => exact wellFormed
  | cons change rest ih => exact ih (wellFormed_run wellFormed change)

end Configuration

/-! ## What rests on the shape -/

/-- There is a path of mapped hierarchies unless nothing is mapped at all. -/
theorem Catalog.mappedHierarchies?_eq_none_iff {catalog : Catalog}
    (wellFormed : ∀ record ∈ catalog.records, record.WellFormed) :
    catalog.mappedHierarchies?.value = none ↔
      ∀ record ∈ catalog.records, ∀ owner, record.subject ≠ .cacheMap owner := by
  have maps (subject : Subject) :
      OwnerFilter.all.includes subject ↔ ∃ owner, subject = .cacheMap owner := by
    cases subject with
    | cacheMap owner => cases owner <;> simp [OwnerFilter.includes]
    | sections _ | definition _ | programMap | mandatory => simp [OwnerFilter.includes]
  simp only [mappedHierarchies?, Traced.value_bind, SearchPath.value_appendAllTraced,
    Traced.value_pure, SearchPath.nonEmpty?_eq_none_iff, SearchPath.appendAll_eq_nil_iff, true_and]
  constructor
  · intro empty record member owner same
    have kept : record ∈ catalog.records.filter (OwnerFilter.all.includes ·.subject) :=
      List.mem_filter.mpr ⟨member, (maps _).mpr ⟨owner, same⟩⟩
    exact (wellFormed record member).key.nonempty (empty _ (List.mem_map_of_mem kept))
  · intro unmapped key member
    obtain ⟨record, kept, rfl⟩ := List.mem_map.mp member
    obtain ⟨present, included⟩ := List.mem_filter.mp kept
    obtain ⟨owner, same⟩ := (maps record.subject).mp included
    exact absurd same (unmapped record present owner)

/-- After any loads, readings and resets of a new configuration, failed ones included, every record
    is well-formed.  So there is a path of mapped hierarchies unless no record maps one, and no key
    is what every name begins with. -/
theorem records_wellFormed (changes : List Change) :
    let catalog := (Configuration.empty.afterChanges changes).catalog
    (∀ record ∈ catalog.records, record.WellFormed) ∧
    (catalog.mappedHierarchies?.value = none ↔
      ∀ record ∈ catalog.records, ∀ owner, record.subject ≠ .cacheMap owner) ∧
    ∀ record ∈ catalog.records, ¬ ∀ name, record.key <+: name := by
  intro catalog
  have wellFormed : ∀ record ∈ catalog.records, record.WellFormed :=
    Configuration.wellFormed_afterChanges Configuration.wellFormed_empty changes
  refine ⟨wellFormed, Catalog.mappedHierarchies?_eq_none_iff wellFormed, ?_⟩
  intro record member everywhere
  exact (wellFormed record member).key.nonempty (List.prefix_nil.mp (everywhere []))

end ManualPages
