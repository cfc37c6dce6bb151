import ManualPages.CachePath.Mapping
import ManualPages.Declaration
import ManualPages.Failure

/-! # The configuration

What the configuration files declare: records, formatting and the files themselves.

* `Formatting`, `Source`, `Configuration` — widths and switches, a file that was read, the whole.
* `Configuration.apply` — the effect of one declaration.
* `Configuration.applyLines` — the effect of lines up to the first that is not understood.
* `Configuration.readText` — the effect of the text of a file.
* `Configuration.empty`, `reset` — a configuration before any load, and after one is undone.
* `Configuration.definition?`, `sections` — the questions that need no tree of files.
-/

namespace ManualPages

/-! ## Parts -/

/-- Widths and switches for whoever formats pages. -/
structure Formatting where
  /-- The least width at which pages are kept formatted. -/
  leastWidth : Int := 80
  /-- The greatest width at which pages are kept formatted. -/
  greatestWidth : Int := 80
  /-- The width that pages are formatted to, zero for that of the terminal. -/
  fixedWidth : Int := 0
  noCache : Bool := false
  deriving DecidableEq, Repr

def Formatting.setWidth (formatting : Formatting) (which : Width) (value : Int) : Formatting :=
  match which with
  | .least => { formatting with leastWidth := value }
  | .greatest => { formatting with greatestWidth := value }
  | .fixed => { formatting with fixedWidth := value }

/-- A file that was read to its end. -/
structure Source where
  path : Octets
  owner : Owner
  deriving DecidableEq, Repr

structure Configuration where
  catalog : Catalog := {}
  formatting : Formatting := {}
  sources : List Source := []
  loaded : Bool := false
  deriving DecidableEq, Repr

namespace Configuration

/-! ## Declarations -/

def addRecord (config : Configuration) (key content : Text) (subject : Subject) :
    Traced Configuration := do
  let catalog ← config.catalog.addTraced key content subject
  return { config with catalog }

def cacheDirectory (hierarchy : Text) : CacheTarget → Traced Text
  | .beside => pure hierarchy
  | .legacy => Legacy.cacheDirectoryTraced hierarchy
  | .directory path => pure path

def addSections (owner : Owner) (config : Configuration) (names : List Text) :
    Traced Configuration :=
  names.foldlM (fun config name => do
    Traced.report (.sectionDeclared name)
    config.addRecord name [] (.sections owner)) config

/-- The effect of a declaration from one of the two files. -/
def apply (owner : Owner) (config : Configuration) : Declaration → Traced Configuration
  | .noCache => pure { config with formatting := { config.formatting with noCache := true } }
  | .mandatory hierarchy => do
    Traced.report (.mandatoryDeclared hierarchy)
    config.addRecord hierarchy [] .mandatory
  | .programMap programs hierarchy => do
    Traced.report (.programMapDeclared programs hierarchy)
    config.addRecord programs hierarchy .programMap
  | .cacheMap hierarchy target => do
    let cache ← cacheDirectory hierarchy target
    Traced.report (.cacheMapDeclared owner hierarchy cache)
    config.addRecord hierarchy cache (.cacheMap owner)
  | .define name value => do
    Traced.report (.definitionDeclared name value)
    config.addRecord name value (.definition owner)
  | .sections names => addSections owner config names
  | .width which value =>
    pure { config with formatting := config.formatting.setWidth which value }

/-! ## Texts -/

/-- The effect of lines up to the first that is not understood, and that line, counted
    from `number`, with its fault. -/
def applyLines (owner : Owner) (config : Configuration) (number : Nat) :
    List Text → Traced (Configuration × Option (Nat × DeclarationError))
  | [] => pure (config, none)
  | line :: rest =>
    match Declaration.parse line with
    | .error fault => pure (config, some (number, fault))
    | .ok none => applyLines owner config (number + 1) rest
    | .ok (some declaration) => do
      let config ← config.apply owner declaration
      applyLines owner config (number + 1) rest

/-- The effect of the text of a file.  The file becomes a source if every line is
    understood; the lines before one that is not keep their effect. -/
def readText (config : Configuration) (text : Text) (path : Octets) (owner : Owner) :
    Traced (Outcome Configuration) := do
  let (config, fault?) ← config.applyLines owner 1 text.lines
  match fault? with
  | some (number, fault) =>
    return ⟨config, some (.lineNotUnderstood path number fault.message)⟩
  | none => return ⟨{ config with sources := config.sources ++ [⟨path, owner⟩] }, none⟩

def empty : Configuration := {}

/-- The configuration without records, formatting and sources, open to another load. -/
def reset (config : Configuration) : Configuration :=
  { config with catalog := {}, formatting := {}, sources := [], loaded := false }

/-! ## Questions -/

/-- The value of a definition.  Where the per-user file counts, its definition wins. -/
def definition? (config : Configuration) (name : Text) (allowUser : Bool) : Option Text :=
  let system := config.catalog.first? name (.definition .system)
  if allowUser then (config.catalog.first? name (.definition .user)).or system else system

def sections (config : Configuration) : List Text :=
  config.catalog.keysAbout (.sections .system)

end Configuration

end ManualPages
