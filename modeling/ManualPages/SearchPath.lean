import ManualPages.Diagnostics.Traced

/-! # Search paths

A search path is a text of segments divided by colons.  It is put together by appending
candidates, from which segments are left out that are empty or listed already; segments
are compared as they are written.

* `SearchPath.segments`, `entries` — all segments of a text, and those that are not empty.
* `SearchPath.append` — one text after the other, with the segments left out.
* `SearchPath.appendTraced` — the same with the event that tells what was left out.
* `SearchPath.appendAll` — a sequence of candidates after a text.
* `SearchPath.join`, `joinParts` — segments, or parts of a path, put together as they are.
-/

namespace ManualPages

namespace SearchPath

def segments (path : Text) : List Text := path.splitOn ':'

def entries (path : Text) : List Text := (segments path).filter (! ·.isEmpty)

def join (segments : List Text) : Text := [':'].intercalate segments

/-- The parts that are not empty, with a colon between them. -/
def joinParts (parts : List Text) : Text := join (parts.filter (! ·.isEmpty))

/-- The segments of `candidate` that are neither empty nor among those of `existing`. -/
def fresh (existing candidate : Text) : List Text :=
  (segments candidate).filter fun segment =>
    ! segment.isEmpty && ! (segments existing).contains segment

/-- Appends a candidate to a path.  An empty path becomes the candidate as it stands; to
    any other path the fresh segments of the candidate are added. -/
def append (existing candidate : Text) : Text :=
  if existing.isEmpty then candidate else join (existing :: fresh existing candidate)

/-- The event that tells of segments that were left out, if any were. -/
def appendEvents (existing candidate : Text) : List Event :=
  if existing.isEmpty then []
  else if (fresh existing candidate).length = (segments candidate).length then []
  else [.segmentsDropped existing candidate (append existing candidate)]

/-- Appends a candidate to a path and tells what was left out. -/
def appendTraced (existing candidate : Text) : Traced Text :=
  ⟨append existing candidate, appendEvents existing candidate⟩

def appendAll (existing : Text) (candidates : List Text) : Text := candidates.foldl append existing

/-- Appends candidates one after the other and tells what was left out. -/
def appendAllTraced (existing : Text) (candidates : List Text) : Traced Text :=
  candidates.foldlM appendTraced existing

def nonEmpty? (path : Text) : Option Text := if path.isEmpty then none else some path

@[simp] theorem value_appendTraced (existing candidate : Text) :
    (appendTraced existing candidate).value = append existing candidate := rfl

@[simp] theorem value_appendAllTraced (existing : Text) (candidates : List Text) :
    (appendAllTraced existing candidates).value = appendAll existing candidates := by
  simp [appendAllTraced, appendAll, Traced.value_foldlM]

end SearchPath

end ManualPages
