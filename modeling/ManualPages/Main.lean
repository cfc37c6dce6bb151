import ManualPages.CommandLine.Run
import ManualPages.FileTree.Edit

/-! # The program

The outer layer: it takes a picture of the files that matter, hands it with the arguments
and the environment to `CommandLine.run`, and writes what comes back.  What is not in the
picture is not found: directories at a depth of more than `pictureDepth`, those in `skipped`,
and what may not be listed.  A home directory is known only from the variable that names it.

* `picture` — a directory and what is below it, to a depth.
* `withFile` — a tree with the content of one file.
* `main` — the program.
-/

namespace ManualPages

namespace Outer

def skipped : List String := ["proc", "sys", "dev", "run"]

def pictureDepth : Nat := 6

def octetsOf (s : String) : Octets := Octets.encode s.toList

def attempt? {α : Type} (action : IO α) : IO (Option α) := do
  try return some (← action)
  catch _ => return none

/-- A directory and what is below it, to a depth.  Files are taken without their content
    and links with the path that they lead to. -/
def picture (depth : Nat) (path : String) : IO Node := do
  match depth with
  | 0 => return .directory []
  | depth + 1 =>
    let found ← attempt? do (← IO.FS.realPath path).readDir
    let mut entries := #[]
    for entry in found.getD #[] do
      let name := entry.fileName
      let below := if path = "/" then "/" ++ name else path ++ "/" ++ name
      if path = "/" && skipped.contains name then continue
      match ← attempt? entry.path.symlinkMetadata with
      | none => continue
      | some metadata =>
        match metadata.type with
        | .dir => entries := entries.push (octetsOf name, ← picture depth below)
        | .symlink =>
          if let some target ← attempt? (IO.FS.realPath below) then
            entries := entries.push (octetsOf name, .link (octetsOf target.toString))
        | _ => entries := entries.push (octetsOf name, .file [])
    return .directory entries.toList

/-- A tree with the content of one file, if it can be read. -/
def withFile (tree : FileTree) (path : Octets) : IO FileTree := do
  match path.decode? with
  | none => return tree
  | some name =>
    match ← attempt? (IO.FS.readBinFile (String.ofList name)) with
    | some content => return tree.writeFile tree.current path content.toList
    | none => return tree

def readVariables : IO Variables := do
  let names := [Variables.manualPath, Variables.programPath, Variables.systems, Variables.home,
    Variables.disablePath, Variables.disableSystemFile, Variables.level, Variables.systemFile]
  let mut found := #[]
  for name in names do
    if let some value ← IO.getEnv (String.ofList name) then
      found := found.push (name, octetsOf value)
  return found.toList

def files (env : Environment) (invocation : CommandLine.Invocation) : List Octets :=
  let load := invocation.options.load
  (Configuration.userPath? load env).toList ++ [load.systemFile]

def treeFor (values : Variables) (arguments : List Text) : IO FileTree := do
  match CommandLine.Invocation.parse (values.value? Variables.systemFile) arguments with
  | .error _ => return {}
  | .ok invocation =>
    let tree : FileTree := { root := ← picture pictureDepth "/" }
    let current ← IO.currentDir
    let tree := tree.makeDirectory Place.root (octetsOf current.toString)
    let tree := tree.enter Place.root (octetsOf current.toString)
    (files (Environment.ofVariables values) invocation).foldlM withFile tree

end Outer

end ManualPages

def main (arguments : List String) : IO UInt32 := do
  let texts := arguments.map String.toList
  let values ← ManualPages.Outer.readVariables
  let tree ← ManualPages.Outer.treeFor values texts
  let exit := ManualPages.CommandLine.run tree values texts
  IO.print (String.ofList exit.output)
  IO.eprint (String.ofList exit.errors)
  return UInt32.ofNat exit.code
