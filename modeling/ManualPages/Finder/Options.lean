import ManualPages.Configuration.Load
import ManualPages.DirectoryList

/-! # Options of a finder

What can be asked of a finder beforehand.
-/

namespace ManualPages

/-- What is asked of a finder beforehand. -/
structure Options where
  /-- The alternate systems, in place of those of the environment. -/
  systems : Option Text := none
  /-- A directory that is tried inside every hierarchy before the hierarchy itself. -/
  overrideDirectory : Option Text := none
  /-- How many entries a list of directories may hold. -/
  limit : Nat := DirectoryList.defaultLimit
  load : ConfigFiles := {}
  deriving DecidableEq, Repr

end ManualPages
