import ManualPages.Proofs.FileTree.Outline

/-! # The names in a tree

A property of all names in a tree holds of the names that any path leads through and of those in any
listing, because all of them are names of entries.

* `Node.allNames` — whether all names below a node pass a test.
* `allNames_child`, `allNames_descend`, `allNames_at?` — the names on the way to a node, and below it.
* `allNames_listing?` — the names in a directory that a path leads to.
* `FileName` — what an operating system lets an entry be called.
-/

namespace ManualPages

/-! ## Nodes -/

namespace Node

mutual

/-- Whether all names below a node pass a test. -/
def allNames (test : Octets → Bool) : Node → Bool
  | .directory entries => allNamesOf test entries
  | .file _ | .link _ => true

def allNamesOf (test : Octets → Bool) : List (Octets × Node) → Bool
  | [] => true
  | (name, node) :: rest => test name && node.allNames test && allNamesOf test rest

end

variable {test : Octets → Bool} {node : Node}

theorem allNames_entries (all : node.allNames test = true) :
    ∀ entry ∈ node.entries, test entry.1 = true ∧ entry.2.allNames test = true := by
  cases node with
  | file _ | link _ => simp [entries]
  | directory entries =>
    rw [allNames] at all
    change ∀ entry ∈ entries, _
    induction entries with
    | nil => simp
    | cons first rest ih =>
      simp only [allNamesOf, Bool.and_eq_true] at all
      rw [List.forall_mem_cons]
      exact ⟨all.1, ih all.2⟩

theorem allNames_child {name : Octets} {child : Node} (all : node.allNames test = true)
    (found : node.child? name = some child) : test name = true ∧ child.allNames test = true := by
  obtain ⟨before, behind, same, -⟩ := List.lookup_eq_some_iff.mp found
  exact allNames_entries all (name, child) (by simp [same])

theorem allNames_descend {names : List Octets} {target : Node} (all : node.allNames test = true)
    (found : node.descend? names = some target) :
    (∀ name ∈ names, test name = true) ∧ target.allNames test = true := by
  induction names generalizing node with
  | nil =>
    obtain rfl : node = target := Option.some.inj found
    exact ⟨by simp, all⟩
  | cons name names ih =>
    obtain ⟨child, here, further⟩ := Option.bind_eq_some_iff.mp found
    obtain ⟨named, below⟩ := allNames_child all here
    obtain ⟨later, reached⟩ := ih below further
    exact ⟨List.forall_mem_cons.mpr ⟨named, later⟩, reached⟩

end Node

/-! ## Trees -/

namespace FileTree

variable {tree : FileTree} {test : Octets → Bool}

theorem allNames_at? {place : Place} {node : Node} (all : tree.root.allNames test = true)
    (here : tree.at? place = some node) : node.allNames test = true := by
  rw [at?] at here
  split at here
  · exact (Node.allNames_descend all here).2
  · -- in a removed directory there is nothing
    obtain rfl := Option.some.inj here
    rfl

theorem allNames_listing? {path : Text} {entries : List (Octets × Node)}
    (all : tree.root.allNames test = true) (listed : tree.listing? path = some entries) :
    ∀ entry ∈ entries, test entry.1 = true := by
  rw [listing?] at listed
  split at listed
  next place found located =>
    obtain rfl := Option.some.inj listed
    have inside := allNames_at? all (at?_of_locate located)
    exact fun entry member => (Node.allNames_entries inside entry member).1
  · contradiction

end FileTree

/-! ## Names of files -/

/-- What an operating system lets an entry be called: a number of octets without slash and zero,
    and neither of the two names that a directory and its parent have anyway. -/
structure FileName (name : Octets) : Prop where
  nonempty : name ≠ []
  noSlash : Octets.slash ∉ name
  noZero : 0 ∉ name
  notSelf : name ≠ [Octets.dot]
  notParent : name ≠ [Octets.dot, Octets.dot]
  short : name.length ≤ longestName

instance (name : Octets) : Decidable (FileName name) :=
  decidable_of_iff
    (name ≠ [] ∧ Octets.slash ∉ name ∧ 0 ∉ name ∧ name ≠ [Octets.dot] ∧
      name ≠ [Octets.dot, Octets.dot] ∧ name.length ≤ longestName)
    ⟨fun ⟨nonempty, noSlash, noZero, notSelf, notParent, short⟩ =>
      ⟨nonempty, noSlash, noZero, notSelf, notParent, short⟩,
    fun ⟨nonempty, noSlash, noZero, notSelf, notParent, short⟩ =>
      ⟨nonempty, noSlash, noZero, notSelf, notParent, short⟩⟩

end ManualPages
