import ManualPages.Diagnostics.Traced

/-! # The older cache layout

In the older layout the formatted pages of all hierarchies below `/usr` lie in one tree.
The path of a page there follows from the path of the page.

* `Legacy.ofSegment` — what a segment of a path becomes.
* `Legacy.cacheDirectory?` — the directory in the older layout, for what lies below `/usr`.
* `Legacy.cacheDirectory` — the same, and the directory itself with a warning otherwise.
-/

namespace ManualPages

namespace Legacy

def manualRoot : Text := "/usr".toList

def cacheRoot : Text := "/var/catman".toList

def pages : Text := "man".toList

def formatted : Text := "cat".toList

/-- What a segment of a path becomes in the older layout: the directory of a hierarchy is
    left out, one of pages is renamed, any other is kept. -/
def ofSegment (segment : Text) : Text :=
  match pages.isPrefixOf? segment with
  | some [] => []
  | some name => '/' :: formatted ++ name
  | none => '/' :: segment

/-- What the part of a path after the root becomes. -/
def ofSegments (rest : Text) : Text :=
  ((rest.splitOn '/').filter (! ·.isEmpty)).flatMap ofSegment

/-- The cache directory in the older layout, for a path that begins as its root does. -/
def cacheDirectory? (directory : Text) : Option Text :=
  (manualRoot.isPrefixOf? directory).map fun rest => cacheRoot ++ ofSegments rest

/-- The cache directory in the older layout.  A directory elsewhere stands for itself. -/
def cacheDirectory (directory : Text) : Text := (cacheDirectory? directory).getD directory

/-- The cache directory in the older layout, with a warning for a directory elsewhere. -/
def cacheDirectoryTraced (directory : Text) : Traced Text :=
  ⟨cacheDirectory directory,
    if (cacheDirectory? directory).isSome then [] else [.outsideLegacyRoot directory manualRoot]⟩

end Legacy

end ManualPages
