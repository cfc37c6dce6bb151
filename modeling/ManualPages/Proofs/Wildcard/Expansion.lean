import ManualPages.Expander
import ManualPages.Proofs.FileTree.Outline

/-! # Expansion and the contents of files

Wildcards are matched against names and directories.  What is in a file makes no difference to the
paths that a pattern matches.

* `entriesOf_outline`, `descend_outline`, `below_outline` — the levels of matching.
* `expand_outline` — the matches of a pattern.
* `Expander.IgnoresContents` — an expander that does not look into a file.
-/

namespace ManualPages

namespace Wildcard

variable (tree : FileTree)

theorem entriesOf_outline (directory : Text) :
    entriesOf tree.outline directory = entriesOf tree directory := by
  rw [entriesOf, entriesOf, FileTree.listing?_outline]
  cases tree.listing? directory with
  | none => rfl
  | some listing =>
    -- the order looks at names, so it is the same with and without contents
    have sorted (named : List (Text × Node)) :
        (named.map (Prod.map id Node.outline)).mergeSort (fun a b => Text.inOrder a.1 b.1) =
          (named.mergeSort fun a b => Text.inOrder a.1 b.1).map (Prod.map id Node.outline) := by
      rw [List.map_mergeSort]
      intros
      rfl
    have decoded (read : Octets × Node → Option (Text × Node))
        (blind : ∀ entry, read (Prod.map id Node.outline entry) =
          (read entry).map (Prod.map id Node.outline)) :
        (listing.map (Prod.map id Node.outline)).filterMap read =
          (listing.filterMap read).map (Prod.map id Node.outline) := by
      simp only [List.filterMap_map, List.map_filterMap, Function.comp_def, blind]
    simp only [Option.map_some]
    rw [decoded _ fun entry => by simp [Function.comp_def], sorted, List.map_map]
    refine List.map_congr_left fun entry _ => ?_
    obtain ⟨name, node⟩ := entry
    cases node <;> simp [FileTree.isDirectory_outline]

theorem descend_outline (found : Entry → List Text) (depth : Nat) (directory : Text) :
    descend tree.outline found depth directory = descend tree found depth directory := by
  induction depth generalizing directory with
  | zero => rfl
  | succ depth ih => simp only [descend, entriesOf_outline, ih]

theorem ofPath_outline : Reached.ofPath tree.outline = Reached.ofPath tree := by
  funext path
  rw [Reached.ofPath, FileTree.isDirectory_outline]
  rfl

theorem below_outline (directoriesOnly : Bool) : (here : Reached) → (parts : List Piece) →
    below tree.outline directoriesOnly here parts = below tree directoriesOnly here parts
  | _, [] => rfl
  | here, .named name :: rest => by
    have further (next : Reached) := below_outline directoriesOnly next rest
    simp only [below, FileTree.isPresent_outline, ofPath_outline, further]
  | here, [.levels] => by simp only [below, descend_outline]
  | here, .levels :: piece :: rest => by
    have further (next : Reached) := below_outline directoriesOnly next rest
    simp only [below, descend_outline, further]
  | here, .wild pattern :: rest => by
    have further (next : Reached) := below_outline directoriesOnly next rest
    simp only [below, entriesOf_outline, ofPath_outline, further]

theorem expand_outline (pattern : Text) : expand tree.outline pattern = expand tree pattern := by
  simp only [expand, expansions, below_outline, ofPath_outline]

end Wildcard

namespace Expander

/-- The candidates do not depend on what is in the file that a path leads to. -/
def IgnoresContents (expander : Expander) (path : Octets) : Prop :=
  ∀ tree content pattern,
    expander.expand (FileTree.overwrite tree path content) pattern = expander.expand tree pattern

theorem wildcards_ignoresContents (path : Octets) : wildcards.IgnoresContents path := by
  intro tree content pattern
  have same : Wildcard.expand (tree.overwrite path content) pattern = Wildcard.expand tree pattern := by
    rw [← Wildcard.expand_outline, FileTree.outline_overwrite, Wildcard.expand_outline]
  simp only [wildcards, same]

end Expander

end ManualPages
