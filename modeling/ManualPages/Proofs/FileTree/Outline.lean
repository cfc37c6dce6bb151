import ManualPages.FileTree.Lookup

/-! # Trees without the contents of files

Finding files, listing directories and resolving links never look into a file; only reading one
does.  The outline of a tree is the tree with all its files emptied.  Every question that does not
read has the same answer in the outline, so it has the same answer in two trees of one outline, and
writing to a file leaves the outline as it was.

* `Node.outline`, `FileTree.outline` — a node and a tree without the contents of files.
* `walk_outline`, `trace_outline` — paths lead to the same places.
* `probe_outline`, `isPresent_outline`, `listing?_outline`, `names?_outline`, `canonical?_outline` —
  the questions.
* `FileTree.overwrite`, `outline_overwrite` — a tree with other contents in a file.
-/

namespace ManualPages

/-! ## Nodes -/

namespace Node

mutual

/-- The node with all files in it emptied. -/
def outline : Node → Node
  | .file _ => .file []
  | .link target => .link target
  | .directory entries => .directory (outlines entries)

def outlines : List (Octets × Node) → List (Octets × Node)
  | [] => []
  | (name, node) :: rest => (name, node.outline) :: outlines rest

end

theorem outlines_eq_map (entries : List (Octets × Node)) :
    outlines entries = entries.map (Prod.map id outline) := by
  induction entries with
  | nil => rfl
  | cons entry rest ih =>
    rw [outlines, ih, List.map_cons]
    rfl

@[simp] theorem outline_file (content : Octets) : (Node.file content).outline = .file [] := by
  rw [outline]

@[simp] theorem outline_link (target : Octets) : (Node.link target).outline = .link target := by
  rw [outline]

@[simp] theorem outline_directory (entries : List (Octets × Node)) :
    (Node.directory entries).outline = .directory (entries.map (Prod.map id outline)) := by
  rw [outline, outlines_eq_map]

variable (node : Node)

@[simp] theorem isDirectory_outline : node.outline.isDirectory = node.isDirectory := by
  cases node <;> simp [isDirectory]

theorem entries_outline :
    node.outline.entries = node.entries.map (Prod.map id outline) := by
  cases node <;> simp [entries]

theorem lookup_map_outline (entries : List (Octets × Node)) (name : Octets) :
    (entries.map (Prod.map id outline)).lookup name =
      (entries.lookup name).map outline := by
  induction entries with
  | nil => rfl
  | cons entry rest ih =>
    obtain ⟨other, node⟩ := entry
    by_cases found : name == other <;> simp [List.lookup_cons, found, ih]

@[simp] theorem child?_outline (name : Octets) :
    node.outline.child? name = (node.child? name).map outline := by
  rw [child?, entries_outline, lookup_map_outline]
  rfl

theorem descend?_outline (names : List Octets) :
    node.outline.descend? names = (node.descend? names).map outline := by
  induction names generalizing node with
  | nil => rfl
  | cons name names ih =>
    rw [descend?, descend?, child?_outline]
    cases node.child? name with
    | none => rfl
    | some child => exact ih child

theorem descend?_append (names more : List Octets) :
    node.descend? (names ++ more) = (node.descend? names).bind (·.descend? more) := by
  induction names generalizing node with
  | nil => rfl
  | cons name names ih =>
    rw [List.cons_append, descend?, descend?]
    cases node.child? name with
    | none => rfl
    | some child => exact ih child

end Node

/-! ## Paths -/

namespace FileTree

variable (tree : FileTree)

def outline : FileTree := { tree with root := tree.root.outline }

@[simp] theorem current_outline : tree.outline.current = tree.current := rfl

theorem at?_outline (place : Place) : tree.outline.at? place = (tree.at? place).map Node.outline := by
  rw [at?, at?]
  split
  · exact Node.descend?_outline tree.root place.names
  · simp

/-- What a path leads to, without the contents of files. -/
def outlined : Except LookupError (Place × Node) → Except LookupError (Place × Node) :=
  Except.map fun found => (found.1, found.2.outline)

@[simp] theorem outlined_ok (place : Place) (node : Node) :
    outlined (.ok (place, node)) = .ok (place, node.outline) := rfl

@[simp] theorem outlined_error (cause : LookupError) : outlined (.error cause) = .error cause := rfl

theorem walkWith_outline (last : LastLink)
    {jump jumpOutline : Place → List Step → Except LookupError (Place × Node)}
    (jumps : ∀ place moves, jumpOutline place moves = outlined (jump place moves))
    (place : Place) (node : Node) (moves : List Step) :
    tree.outline.walkWith last jumpOutline place node.outline moves =
      outlined (tree.walkWith last jump place node moves) := by
  induction moves generalizing place node with
  | nil => rfl
  | cons step rest ih =>
    simp only [walkWith, Node.isDirectory_outline]
    cases node.isDirectory with
    | false => rfl
    | true =>
      simp only [Bool.not_true, Bool.false_eq_true, if_false]
      cases step with
      | stay => exact ih place node
      | up =>
        simp only [at?_outline]
        cases tree.at? place.parent with
        | none => rfl
        | some above => exact ih place.parent above
      | enter name =>
        simp only [Node.child?_outline]
        split
        · rfl
        · cases node.child? name with
          | none => rfl
          | some child =>
            -- a link is handed over as it is; into any other child the walk goes on
            cases child with
            | file content => simpa using ih (place.child name) (.file content)
            | directory entries => simpa using ih (place.child name) (.directory entries)
            | link target =>
              simp only [Option.map_some, Node.outline_link]
              split
              · rfl
              · exact jumps _ _

theorem walk_outline (last : LastLink) (budget : Nat) (place : Place) (moves : List Step) :
    tree.outline.walk last budget place moves = outlined (tree.walk last budget place moves) := by
  induction budget generalizing place moves with
  | zero =>
    simp only [walk, at?_outline]
    cases tree.at? place with
    | none => rfl
    | some node =>
      exact walkWith_outline tree last (fun _ _ => (outlined_error .tooManyLinks).symm) place node moves
  | succ budget ih =>
    simp only [walk, at?_outline]
    cases tree.at? place with
    | none => rfl
    | some node => exact walkWith_outline tree last ih place node moves

theorem trace_outline (last : LastLink) (path : Octets) :
    tree.outline.trace last path = outlined (tree.trace last path) := by
  simp only [trace, walk_outline, current_outline]
  split
  · rfl
  · split <;> rfl

theorem locateFrom_outline (last : LastLink) (path : Octets) :
    tree.outline.locateFrom last path = outlined (tree.locateFrom last path) := by
  simp only [locateFrom, trace_outline]
  split <;> rfl

/-! ## Questions -/

@[simp] theorem isOk_outlined (found : Except LookupError (Place × Node)) :
    (outlined found).isOk = found.isOk := by
  cases found <;> rfl

theorem probe_outline (path : Text) : tree.outline.probe path = tree.probe path := by
  simp only [probe, probeOctets, locate, locateFrom_outline]
  cases tree.locateFrom .follow (Octets.encode path) with
  | error cause => rfl
  | ok found => simp [outlined, Except.map]

theorem isDirectory_outline (path : Text) : tree.outline.isDirectory path = tree.isDirectory path := by
  rw [isDirectory, isDirectory, probe_outline]

theorem isPresent_outline (path : Text) : tree.outline.isPresent path = tree.isPresent path := by
  simp [isPresent, locate, locateItself, locateFrom_outline]

theorem listing?_outline (path : Text) :
    tree.outline.listing? path =
      (tree.listing? path).map (·.map (Prod.map id Node.outline)) := by
  simp only [listing?, locate, locateFrom_outline]
  cases tree.locateFrom .follow (Octets.encode path) with
  | error cause => rfl
  | ok found =>
    obtain ⟨place, node⟩ := found
    cases node <;> simp

theorem names?_outline (path : Text) : tree.outline.names? path = tree.names? path := by
  simp [names?, listing?_outline, List.filterMap_map, Function.comp_def]

theorem canonical?_outline (path : Text) : tree.outline.canonical? path = tree.canonical? path := by
  simp only [canonical?, trace_outline, current_outline]
  cases tree.trace .follow (Octets.encode path) <;> rfl

theorem currentPath?_outline : tree.outline.currentPath? = tree.currentPath? := rfl

end FileTree

/-! ## Writing to a file -/

namespace Node

/-- The entries with the first node of a name replaced, if there is one of that name. -/
theorem outline_put {node child other : Node} {name : Octets} (there : node.child? name = some other)
    (same : child.outline = other.outline) : (node.put name child).outline = node.outline := by
  have inEntries {entries : List (Octets × Node)} (found : entries.lookup name = some other) :
      outlines (put.insert name child entries) = outlines entries := by
    induction entries with
    | nil => simp at found
    | cons entry rest ih =>
      obtain ⟨first, node⟩ := entry
      by_cases here : first = name
      · obtain rfl : node = other := by simpa [List.lookup_cons, here] using found
        simp [put.insert, here, outlines, same]
      · have apart : (name == first) = false := by simpa using Ne.symm here
        have later : rest.lookup name = some other := by simpa [List.lookup_cons, apart] using found
        simp [put.insert, here, outlines, ih later]
  cases node with
  | file _ | link _ => simp [child?, entries] at there
  | directory entries => rw [put, outline, outline, inEntries there]; rfl

theorem outline_modify {f : Node → Node} {names : List Octets} {node target : Node}
    (there : node.descend? names = some target) (same : (f target).outline = target.outline) :
    (modify f names node).outline = node.outline := by
  induction names generalizing node with
  | nil =>
    obtain rfl : node = target := by simpa [descend?] using there
    exact same
  | cons name names ih =>
    obtain ⟨child, found, below⟩ := Option.bind_eq_some_iff.mp there
    rw [modify, found]
    exact outline_put found (ih below)

end Node

namespace FileTree

variable {tree : FileTree} {last : LastLink} {place : Place} {node : Node}

theorem at?_child {origin : Place} {start : Node} {name : Octets}
    (here : tree.at? origin = some start) (found : start.child? name = some node) :
    tree.at? (origin.child name) = some node := by
  rw [at?] at here
  split at here
  · rw [at?, Place.child, if_pos rfl, Node.descend?_append, here, Option.bind_some, Node.descend?,
      found]
    rfl
  · -- in a removed directory there is nothing
    obtain rfl : Node.directory [] = start := Option.some.inj here
    contradiction

theorem at?_of_walkWith {jump : Place → List Step → Except LookupError (Place × Node)}
    (jumps : ∀ origin moves, jump origin moves = .ok (place, node) → tree.at? place = some node)
    {origin : Place} {start : Node} {moves : List Step} (here : tree.at? origin = some start)
    (walked : tree.walkWith last jump origin start moves = .ok (place, node)) :
    tree.at? place = some node := by
  -- the walk keeps that `start` is what the tree has at `origin`
  induction moves generalizing origin start with
  | nil =>
    obtain ⟨rfl, rfl⟩ : origin = place ∧ start = node := by simpa [walkWith] using walked
    exact here
  | cons step rest ih =>
    simp only [walkWith] at walked
    split at walked
    · contradiction
    cases step with
    | stay => exact ih here walked
    | up =>
      simp only at walked
      cases above : tree.at? origin.parent with
      | none => simp [above] at walked
      | some higher => exact ih above (by simpa [above] using walked)
    | enter name =>
      simp only at walked
      split at walked
      · contradiction
      cases found : start.child? name with
      | none => simp [found] at walked
      | some child =>
        have inside := at?_child here found
        cases child with
        | file content => exact ih inside (by simpa [found] using walked)
        | directory entries => exact ih inside (by simpa [found] using walked)
        | link target =>
          simp only [found] at walked
          split at walked
          · cases walked
            exact inside
          · exact jumps _ _ walked

theorem at?_of_walk {budget : Nat} {origin : Place} {moves : List Step}
    (walked : tree.walk last budget origin moves = .ok (place, node)) :
    tree.at? place = some node := by
  induction budget generalizing origin moves with
  | zero =>
    rw [walk] at walked
    cases here : tree.at? origin with
    | none => simp [here] at walked
    | some start =>
      simp only [here] at walked
      refine at?_of_walkWith ?_ here walked
      intro _ _ ended
      contradiction
  | succ budget ih =>
    rw [walk] at walked
    cases here : tree.at? origin with
    | none => simp [here] at walked
    | some start =>
      simp only [here] at walked
      exact at?_of_walkWith (fun _ _ => ih) here walked

theorem at?_of_locate {path : Octets} (found : tree.locate path = .ok (place, node)) :
    tree.at? place = some node := by
  rw [locate, locateFrom] at found
  split at found
  · contradiction
  rw [trace] at found
  split at found
  · contradiction
  split at found
  · contradiction
  exact at?_of_walk found

/-- The tree with other contents in the file that a path leads to, if it leads to one. -/
def overwrite (tree : FileTree) (path content : Octets) : FileTree :=
  match tree.locate path with
  | .ok (place, .file _) =>
    { tree with root := Node.modify (fun _ => .file content) place.names tree.root }
  | _ => tree

theorem outline_overwrite (tree : FileTree) (path content : Octets) :
    (tree.overwrite path content).outline = tree.outline := by
  rw [overwrite]
  split
  · next place old found =>
    have there := at?_of_locate found
    rw [at?] at there
    split at there
    · have kept : (Node.modify (fun _ => .file content) place.names tree.root).outline =
          tree.root.outline := Node.outline_modify there (by simp)
      simp only [outline, kept]
    · cases there
  · rfl

end FileTree

end ManualPages
