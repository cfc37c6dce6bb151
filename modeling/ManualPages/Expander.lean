import ManualPages.Diagnostics.Traced
import ManualPages.Wildcard.Expansion

/-! # Expanders

How an element of a search path becomes directories to look at.

* `Expander` — any function from patterns to candidates.
* `Expander.wildcards` — the matches in the tree of files.
* `Expander.table` — given candidates for given patterns.
-/

namespace ManualPages

/-- A way to turn a pattern into the candidates it stands for. -/
structure Expander where
  /-- The candidates of a pattern in a tree, in order. -/
  expand : FileTree → Text → Traced (List Text)

namespace Expander

/-- Every pattern stands for the paths it matches, or for itself where it matches none.
    A pattern that is not well formed is reported. -/
def wildcards : Expander where
  expand tree pattern :=
    let (found, error?) := Wildcard.expand tree pattern
    ⟨found, error?.toList.map (.invalidPattern pattern)⟩

/-- A pattern of the table stands for the candidates given there, any other for itself. -/
def table (entries : List (Text × List Text)) : Expander where
  expand _ pattern := pure ((entries.lookup pattern).getD [pattern])

end Expander

end ManualPages
