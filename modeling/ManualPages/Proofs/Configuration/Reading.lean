import Mathlib.Data.List.TakeWhile
import ManualPages.Configuration.Load

/-! # What reading the configuration files comes to

Loading changes a configuration by the declarations of the lines before the first one that is
not understood, and by nothing else.  Here this is said once, of one declaration, of the lines
of a text, and of both files; later modules only speak of entries and sources.

* `Entry.records`, `lastWidth?`, `Formatting.after` — what declarations add and set.
* `Understood`, `FirstFault` — the lines that are understood, and the first one that is not.
* `Configuration.after` — a configuration with entries and sources put on top.
* `Reading.ofFiles` — the entries, the sources and the failure of both files.
* `Configuration.load_value` — loading puts the reading of both files on top of what was there.
-/

namespace ManualPages

/-! ## Declarations -/

/-- A declaration with the file it stands in. -/
structure Entry where
  owner : Owner
  declaration : Declaration
  deriving DecidableEq, Repr

/-- The directory that a target sends the formatted pages of a hierarchy to. -/
def CacheTarget.directoryFor (hierarchy : Text) : CacheTarget → Text
  | .beside => hierarchy
  | .legacy => Legacy.cacheDirectory hierarchy
  | .directory path => path

def Entry.records : Entry → List Record
  | ⟨_, .noCache⟩ | ⟨_, .width ..⟩ => []
  | ⟨_, .mandatory hierarchy⟩ => [⟨hierarchy, [], .mandatory⟩]
  | ⟨_, .programMap programs hierarchy⟩ => [⟨programs, hierarchy, .programMap⟩]
  | ⟨owner, .cacheMap hierarchy target⟩ =>
    [⟨hierarchy, target.directoryFor hierarchy, .cacheMap owner⟩]
  | ⟨owner, .define name value⟩ => [⟨name, value, .definition owner⟩]
  | ⟨owner, .sections names⟩ => names.map fun name => ⟨name, [], .sections owner⟩

def Declaration.width? (which : Width) : Declaration → Option Int
  | .width other value => if other = which then some value else none
  | _ => none

def lastWidth? (which : Width) (declarations : List Declaration) : Option Int :=
  (declarations.filterMap (·.width? which)).getLast?

def Formatting.widthOf (formatting : Formatting) : Width → Int
  | .least => formatting.leastWidth
  | .greatest => formatting.greatestWidth
  | .fixed => formatting.fixedWidth

/-- The formatting after declarations: of each width the last value counts. -/
def Formatting.after (formatting : Formatting) (declarations : List Declaration) : Formatting where
  leastWidth := (lastWidth? .least declarations).getD formatting.leastWidth
  greatestWidth := (lastWidth? .greatest declarations).getD formatting.greatestWidth
  fixedWidth := (lastWidth? .fixed declarations).getD formatting.fixedWidth
  noCache := formatting.noCache || declarations.contains .noCache

@[simp] theorem lastWidth?_nil (which : Width) : lastWidth? which [] = none := rfl

theorem lastWidth?_append (which : Width) (first second : List Declaration) :
    lastWidth? which (first ++ second) = (lastWidth? which second).or (lastWidth? which first) := by
  simp [lastWidth?, List.filterMap_append, List.getLast?_append]

@[simp] theorem Formatting.after_nil (formatting : Formatting) :
    formatting.after [] = formatting := by
  simp [Formatting.after]

theorem Formatting.after_append (formatting : Formatting) (first second : List Declaration) :
    formatting.after (first ++ second) = (formatting.after first).after second := by
  have getD_or (a b : Option Int) (c : Int) : (a.or b).getD c = a.getD (b.getD c) := by
    cases a <;> rfl
  simp [Formatting.after, lastWidth?_append, getD_or, Bool.or_assoc]

theorem Formatting.widthOf_after (formatting : Formatting) (declarations : List Declaration)
    (which : Width) :
    (formatting.after declarations).widthOf which =
      (lastWidth? which declarations).getD (formatting.widthOf which) := by
  cases which <;> rfl

theorem Formatting.ext_widthOf {first second : Formatting}
    (widths : ∀ which, first.widthOf which = second.widthOf which)
    (switches : first.noCache = second.noCache) : first = second := by
  have least := widths .least
  have greatest := widths .greatest
  have fixed := widths .fixed
  cases first
  cases second
  simp_all [Formatting.widthOf]

/-! ## Lines -/

def Understood (line : Text) : Bool := (Declaration.parse line).isOk

def Declaration.ofLine? (line : Text) : Option Declaration :=
  match Declaration.parse line with
  | .ok declaration? => declaration?
  | .error _ => none

def declarationsOf (lines : List Text) : List Declaration := lines.filterMap Declaration.ofLine?

/-- The line with this number, counted from one, is the first that is not understood, and this
    is its fault. -/
def FirstFault (lines : List Text) (number : Nat) (fault : DeclarationError) : Prop :=
  ∃ before line rest, lines = before ++ line :: rest ∧ number = before.length + 1 ∧
    (∀ earlier ∈ before, Understood earlier) ∧ Declaration.parse line = .error fault

/-- How many lines are before the first one that is not understood, and the fault of that one. -/
def firstFault? : List Text → Option (Nat × DeclarationError)
  | [] => none
  | line :: rest =>
    match Declaration.parse line with
    | .error fault => some (0, fault)
    | .ok _ => (firstFault? rest).map fun (before, fault) => (before + 1, fault)

theorem understood_of_ok {line : Text} {declaration? : Option Declaration}
    (parsed : Declaration.parse line = .ok declaration?) : Understood line := by
  simp [Understood, parsed, Except.isOk, Except.toBool]

theorem not_understood_of_error {line : Text} {fault : DeclarationError}
    (parsed : Declaration.parse line = .error fault) : ¬ Understood line := by
  simp [Understood, parsed, Except.isOk, Except.toBool]

theorem firstFault?_eq_none_iff (lines : List Text) :
    firstFault? lines = none ↔ ∀ line ∈ lines, Understood line := by
  induction lines with
  | nil => simp [firstFault?]
  | cons line rest ih =>
    cases parsed : Declaration.parse line with
    | error fault => simp [firstFault?, parsed, not_understood_of_error parsed]
    | ok declaration? => simp [firstFault?, parsed, understood_of_ok parsed, ih]

theorem firstFault?_eq_some_iff (lines : List Text) (index : Nat) (fault : DeclarationError) :
    firstFault? lines = some (index, fault) ↔ FirstFault lines (index + 1) fault := by
  induction lines generalizing index with
  | nil => simp [firstFault?, FirstFault]
  | cons line rest ih =>
    cases parsed : Declaration.parse line with
    | error found =>
      simp only [firstFault?, parsed, Option.some.injEq, Prod.mk.injEq]
      constructor
      · rintro ⟨rfl, rfl⟩
        exact ⟨[], line, rest, rfl, rfl, by simp, parsed⟩
      · rintro ⟨before, faulty, after, split, count, sound, error⟩
        cases before with
        | nil =>
          obtain ⟨rfl, rfl⟩ : line = faulty ∧ rest = after := by simpa using split
          have index_eq : index = 0 := by simpa using count
          rw [parsed] at error
          exact ⟨index_eq.symm, by simpa using error⟩
        | cons first before =>
          obtain ⟨rfl, -⟩ : line = first ∧ rest = before ++ faulty :: after := by simpa using split
          exact absurd (sound line (by simp)) (not_understood_of_error parsed)
    | ok declaration? =>
      simp only [firstFault?, parsed, Option.map_eq_some_iff, Prod.exists, Prod.mk.injEq]
      constructor
      · rintro ⟨index, fault, found, rfl, rfl⟩
        obtain ⟨before, faulty, after, rfl, count, sound, error⟩ := (ih index).mp found
        refine ⟨line :: before, faulty, after, rfl, by simp [count], ?_, error⟩
        simpa [understood_of_ok parsed] using sound
      · rintro ⟨before, faulty, after, split, count, sound, error⟩
        cases before with
        | nil =>
          obtain ⟨rfl, -⟩ : line = faulty ∧ rest = after := by simpa using split
          rw [parsed] at error
          contradiction
        | cons first before =>
          obtain ⟨rfl, rfl⟩ : line = first ∧ rest = before ++ faulty :: after := by
            simpa using split
          have index_eq : index = before.length + 1 := by simpa using count
          refine ⟨before.length, fault, (ih _).mpr ?_, index_eq.symm, rfl⟩
          have sound_before : ∀ earlier ∈ before, Understood earlier := by
            intro earlier member
            exact sound earlier (List.mem_cons_of_mem line member)
          exact ⟨before, faulty, after, rfl, rfl, sound_before, error⟩

theorem takeWhile_understood {lines : List Text} (sound : ∀ line ∈ lines, Understood line) :
    lines.takeWhile Understood = lines := by
  rw [List.takeWhile_eq_self_iff]
  exact sound

/-! ## Configurations -/

/-- A configuration with entries and sources put on top of what it holds. -/
def Configuration.after (config : Configuration) (entries : List Entry) (sources : List Source) :
    Configuration :=
  { config with
    catalog := ⟨config.catalog.records ++ entries.flatMap Entry.records⟩
    formatting := config.formatting.after (entries.map (·.declaration))
    sources := config.sources ++ sources }

namespace Configuration

variable (config : Configuration) (owner : Owner)

@[simp] theorem after_nil : config.after [] [] = config := by
  simp [Configuration.after]

theorem after_after (first second : List Entry) (sources more : List Source) :
    (config.after first sources).after second more =
      config.after (first ++ second) (sources ++ more) := by
  simp [Configuration.after, Formatting.after_append, List.append_assoc]

@[simp] theorem loaded_after (entries : List Entry) (sources : List Source) :
    (config.after entries sources).loaded = config.loaded := rfl

theorem cacheDirectory_value (hierarchy : Text) (target : CacheTarget) :
    (cacheDirectory hierarchy target).value = target.directoryFor hierarchy := by
  cases target <;> rfl

theorem addSections_value (names : List Text) :
    (addSections owner config names).value = config.after [⟨owner, .sections names⟩] [] := by
  induction names generalizing config with
  | nil => simp [addSections, Configuration.after, Entry.records, Formatting.after, lastWidth?,
      Declaration.width?]
  | cons name names ih =>
    -- one section goes onto the catalog, the others follow by `ih` from there
    have rest := ih (config.addRecord name [] (.sections owner)).value
    simp only [addSections, List.foldlM_cons, Traced.value_bind] at rest ⊢
    rw [rest]
    simp [Configuration.after, addRecord, Catalog.addTraced, Catalog.add, Entry.records,
      Formatting.after, lastWidth?, Declaration.width?]

theorem apply_value (declaration : Declaration) :
    (config.apply owner declaration).value = config.after [⟨owner, declaration⟩] [] := by
  cases declaration with
  | sections names => exact addSections_value config owner names
  | width which value =>
    cases which <;>
      simp [Configuration.apply, Configuration.after, Entry.records, Formatting.after,
        Formatting.setWidth, lastWidth?, Declaration.width?]
  | noCache =>
    simp [Configuration.apply, Configuration.after, Entry.records, Formatting.after, lastWidth?,
      Declaration.width?]
  | mandatory _ | programMap _ _ | cacheMap _ _ | define _ _ =>
    simp [Configuration.apply, Configuration.after, Entry.records, Formatting.after, lastWidth?,
      Declaration.width?, addRecord, Catalog.addTraced, Catalog.add, cacheDirectory_value]

/-- Lines have the effect of their declarations up to the first line that is not understood. -/
theorem applyLines_value (number : Nat) (lines : List Text) :
    (applyLines owner config number lines).value =
      (config.after ((declarationsOf (lines.takeWhile Understood)).map (⟨owner, ·⟩)) [],
        (firstFault? lines).map fun (before, fault) => (number + before, fault)) := by
  induction lines generalizing config number with
  | nil => simp [applyLines, declarationsOf, firstFault?]
  | cons line rest ih =>
    cases parsed : Declaration.parse line with
    | error fault =>
      simp [applyLines, parsed, firstFault?, declarationsOf, not_understood_of_error parsed]
    | ok declaration? =>
      -- the lines after this one are counted from the next number
      have counted (fault? : Option (Nat × DeclarationError)) :
          fault?.map (fun (before, fault) => (number + 1 + before, fault)) =
            (fault?.map fun (before, fault) => (before + 1, fault)).map
              fun (before, fault) => (number + before, fault) := by
        cases fault? <;> simp [Nat.add_comm, Nat.add_left_comm]
      rw [List.takeWhile_cons_of_pos (understood_of_ok parsed)]
      cases declaration? with
      | none =>
        simp [applyLines, parsed, firstFault?, ih, counted, declarationsOf, Declaration.ofLine?]
      | some declaration =>
        simp [applyLines, parsed, firstFault?, ih, counted, declarationsOf, Declaration.ofLine?,
          apply_value, after_after]

end Configuration

/-! ## Files -/

/-- What reading files comes to: the entries that take effect, the files that are read to their
    end, and what ends the reading early. -/
structure Reading where
  entries : List Entry := []
  sources : List Source := []
  failure? : Option Failure := none

namespace Reading

def ofText (owner : Owner) (path : Octets) (text : Text) : Reading :=
  let entries := (declarationsOf (text.lines.takeWhile Understood)).map (⟨owner, ·⟩)
  match firstFault? text.lines with
  | none => { entries, sources := [⟨path, owner⟩] }
  | some (before, fault) =>
    { entries, failure? := some (.lineNotUnderstood path (before + 1) fault.message) }

/-- One reading and, unless it ends early, another one. -/
def andThen (first second : Reading) : Reading :=
  match first.failure? with
  | some _ => first
  | none => ⟨first.entries ++ second.entries, first.sources ++ second.sources, second.failure?⟩

variable (tree : FileTree) (options : ConfigFiles) (env : Environment)

/-- The reading of the per-user file, which may be missing. -/
def ofUser : Reading :=
  match Configuration.userPath? options env with
  | none => {}
  | some path =>
    match tree.readText path with
    | .ok text => ofText .user path text
    | .error _ => {}

/-- The reading of the system-wide file. -/
def ofSystem : Reading :=
  if env.disableSystemFile then {}
  else
    match tree.readText options.systemFile with
    | .ok text => ofText .system options.systemFile text
    | .error cause =>
      if options.systemOptional then {}
      else { failure? := some (.fileUnreadable options.systemFile cause.message) }

def ofFiles : Reading := (ofUser tree options env).andThen (ofSystem tree options env)

end Reading

namespace Configuration

variable (config : Configuration) (tree : FileTree) (options : ConfigFiles) (env : Environment)

theorem readText_value (owner : Owner) (path : Octets) (text : Text) :
    (config.readText text path owner).value =
      let reading := Reading.ofText owner path text
      ⟨config.after reading.entries reading.sources, reading.failure?⟩ := by
  simp only [readText, Traced.value_bind, applyLines_value, Reading.ofText]
  cases firstFault? text.lines with
  | none => simp [Configuration.after]
  | some found => simp [Nat.add_comm]

theorem loadUser_value :
    (config.loadUser tree options env).value =
      let reading := Reading.ofUser tree options env
      ⟨config.after reading.entries reading.sources, reading.failure?⟩ := by
  simp only [loadUser, Reading.ofUser]
  cases userPath? options env with
  | none => simp
  | some path => cases read : tree.readText path <;> simp [read, readText_value]

theorem loadSystem_value :
    (config.loadSystem tree options env).value =
      let reading := Reading.ofSystem tree options env
      ⟨config.after reading.entries reading.sources, reading.failure?⟩ := by
  simp only [loadSystem, Reading.ofSystem]
  cases env.disableSystemFile with
  | true => simp
  | false =>
    cases read : tree.readText options.systemFile with
    | ok text => simp [readText_value]
    | error cause => cases options.systemOptional <;> simp

/-- Loading puts the reading of both files on top of what is there, and marks the configuration
    as loaded if the reading has not ended early. -/
theorem load_value (unloaded : config.loaded = false) :
    (config.load tree options env).value =
      let reading := Reading.ofFiles tree options env
      ⟨{ config.after reading.entries reading.sources with loaded := reading.failure?.isNone },
        reading.failure?⟩ := by
  simp only [load, unloaded, Bool.false_eq_true, if_false, Traced.value_bind, loadUser_value,
    Reading.ofFiles, Reading.andThen]
  cases user : (Reading.ofUser tree options env).failure? with
  | some failure => simp [user, Configuration.after, unloaded]
  | none =>
    simp only [Traced.value_bind, loadSystem_value, after_after]
    cases (Reading.ofSystem tree options env).failure? <;> simp [Configuration.after, unloaded]

end Configuration

end ManualPages
