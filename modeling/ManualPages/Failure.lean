import ManualPages.FileTree.Basic

/-! # Failures

What can keep a search path from being resolved.  Trouble with a single directory is no
failure but an event.

* `Failure` — the causes.
* `Failure.message`, `Failure.concernsFile` — what is said of them, and whether a
  configuration file is to blame.
* `Outcome` — the state a step leaves behind together with the failure that ended it.
-/

namespace ManualPages

/-- What keeps a search path from being resolved. -/
inductive Failure where
  | fileUnreadable (path : Octets) (cause : Text)
  /-- A line of a configuration file, counted from one, is not understood. -/
  | lineNotUnderstood (path : Octets) (line : Nat) (reason : Text)
  | currentDirectoryUnknown (cause : Text)
  /-- There are more directories than a list may hold. -/
  | tooManyDirectories (limit : Nat)
  | noMappedHierarchies (path : Octets)
  | inputOutput (cause : Text)
  deriving DecidableEq, Repr

namespace Failure

/-- What is said of a failure.  Paths are shown as texts. -/
def message : Failure → Text
  | .fileUnreadable path cause =>
    "can't open the manpath configuration file ".toList ++ path.decodeLossy ++ ": ".toList ++ cause
  | .lineNotUnderstood path line reason =>
    "can't make sense of the manpath configuration file ".toList ++ path.decodeLossy
      ++ " (line ".toList ++ Text.ofNat line ++ "): ".toList ++ reason
  | .currentDirectoryUnknown cause => "can't determine current directory: ".toList ++ cause
  | .tooManyDirectories limit =>
    "manpath list too long (limit is ".toList ++ Text.ofNat limit ++ " directories)".toList
  | .noMappedHierarchies path =>
    "no global manpaths set in config file ".toList ++ path.decodeLossy
  | .inputOutput cause => "I/O error: ".toList ++ cause

/-- Whether a configuration file is to blame.  One that is in order but maps nothing is not. -/
def concernsFile : Failure → Bool
  | .fileUnreadable .. | .lineNotUnderstood .. => true
  | _ => false

end Failure

/-- The state that a step leaves behind, and the failure that ended it, if one did. -/
structure Outcome (σ : Type) where
  state : σ
  failure? : Option Failure := none

end ManualPages
