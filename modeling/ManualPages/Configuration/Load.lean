import ManualPages.Configuration.Basic
import ManualPages.Environment

/-! # Loading the configuration

The per-user file is read first, then the system-wide one.

* `ConfigFiles` — where the files lie and whether the second may be missing.
* `Configuration.userPath?` — which per-user file is read.
* `Configuration.loadUser`, `loadSystem` — the effect of each file.
* `Configuration.load` — the effect of both, once.
-/

namespace ManualPages

structure ConfigFiles where
  /-- The per-user file, if it is not the one in the home directory. -/
  userFile : Option Octets := none
  systemFile : Octets := Octets.encode "/etc/manpath.config".toList
  /-- Go on where the system-wide file cannot be read. -/
  systemOptional : Bool := false
  deriving DecidableEq, Repr

namespace Configuration

def userPath? (options : ConfigFiles) (env : Environment) : Option Octets :=
  options.userFile.or env.userFile?

/-- The effect of the per-user file.  One that cannot be read is passed over. -/
def loadUser (tree : FileTree) (options : ConfigFiles) (env : Environment)
    (config : Configuration) : Traced (Outcome Configuration) :=
  match userPath? options env with
  | none => pure ⟨config, none⟩
  | some path =>
    match tree.readText path with
    | .ok text => do
      Traced.report (.readingFile path.decodeLossy)
      config.readText text path .user
    | .error cause => do
      Traced.report (.userFileSkipped path.decodeLossy cause)
      return ⟨config, none⟩

/-- The effect of the system-wide file.  One that cannot be read is a failure unless it
    may be missing. -/
def loadSystem (tree : FileTree) (options : ConfigFiles) (env : Environment)
    (config : Configuration) : Traced (Outcome Configuration) :=
  if env.disableSystemFile then pure ⟨config, none⟩
  else
    let path := options.systemFile
    match tree.readText path with
    | .ok text => do
      Traced.report (.readingFile path.decodeLossy)
      config.readText text path .system
    | .error cause =>
      if options.systemOptional then do
        Traced.report (.systemFileSkipped path.decodeLossy cause)
        return ⟨config, none⟩
      else pure ⟨config, some (.fileUnreadable path cause.message)⟩

/-- Reads both files, unless that has been done.  A failure leaves the effect of what was
    read before it. -/
def load (tree : FileTree) (options : ConfigFiles) (env : Environment)
    (config : Configuration) : Traced (Outcome Configuration) :=
  if config.loaded then pure ⟨config, none⟩
  else do
    let user ← config.loadUser tree options env
    match user.failure? with
    | some failure => return ⟨user.state, some failure⟩
    | none =>
      let system ← user.state.loadSystem tree options env
      match system.failure? with
      | some failure => return ⟨system.state, some failure⟩
      | none => return ⟨{ system.state with loaded := true }, none⟩

end Configuration

end ManualPages
