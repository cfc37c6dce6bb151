import Mathlib.Data.List.Basic
import ManualPages.Text.Json

/-! # Paths in JSON

A value is written to its end exactly if every path in it is a text.  Where one is not, what comes
before it is written, which is something already if the value is an object.

* `Draft.complete_append_iff`, `Draft.written_append_ne_nil` — one draft after another.
* `Json.paths` — the paths in a value.
* `Json.write_complete_iff`, `Json.pretty_complete_iff` — when a value is written to its end.
* `Json.written_pretty_object` — an object is begun in any case.
-/

namespace ManualPages

/-! ## Drafts -/

namespace Draft

variable {first second : Draft}

theorem complete_append_iff :
    (first ++ second).complete = true ↔ first.complete = true ∧ second.complete = true := by
  change (first.append second).complete = true ↔ _
  unfold append
  split
  next complete => simp [complete]
  next broken => simp [broken]

/-- What has been written stays written. -/
theorem written_append_ne_nil (begun : first.written ≠ []) : (first ++ second).written ≠ [] := by
  change (first.append second).written ≠ []
  unfold append
  split
  · exact fun empty => begun (List.append_eq_nil_iff.mp empty).1
  · exact begun

end Draft

namespace Json

/-! ## Paths in a value -/

mutual

/-- The paths in a value, in the order in which they are written. -/
def paths : Json → List Octets
  | .text _ | .number _ | .flag _ => []
  | .path octets => [octets]
  | .list items => itemPaths items
  | .object fields => fieldPaths fields

def itemPaths : List Json → List Octets
  | [] => []
  | item :: items => item.paths ++ itemPaths items

def fieldPaths : List (Text × Json) → List Octets
  | [] => []
  | (_, value) :: fields => value.paths ++ fieldPaths fields

end

theorem itemPaths_eq (items : List Json) : itemPaths items = items.flatMap paths := by
  induction items with
  | nil => rw [itemPaths, List.flatMap_nil]
  | cons item items ih => rw [itemPaths, ih, List.flatMap_cons]

/-! ## Writing -/

/-- Every path in a value is a text. -/
def Readable (octets : List Octets) : Prop := ∀ path ∈ octets, path.decode?.isSome

theorem readable_append_iff {first second : List Octets} :
    Readable (first ++ second) ↔ Readable first ∧ Readable second :=
  List.forall_mem_append

mutual

theorem write_complete_iff (depth : Nat) (value : Json) :
    (write depth value).complete = true ↔ Readable value.paths := by
  cases value with
  | text _ | number _ | flag _ => simp [write, paths, Readable]
  | path octets => cases decoded : octets.decode? <;> simp [write, paths, Readable, decoded]
  | list items =>
    cases items with
    | nil => simp [write, paths, itemPaths, Readable]
    | cons item items =>
      have first := write_complete_iff (depth + 1) item
      have others := writeItems_complete_iff (depth + 1) items
      simp only [write, paths, itemPaths, Draft.complete_append_iff, readable_append_iff, first,
        others, true_and, and_true]
  | object fields =>
    cases fields with
    | nil => simp [write, paths, fieldPaths, Readable]
    | cons field fields =>
      obtain ⟨name, value⟩ := field
      have first := write_complete_iff (depth + 1) value
      have others := writeFields_complete_iff (depth + 1) fields
      simp only [write, paths, fieldPaths, Draft.complete_append_iff, readable_append_iff, first,
        others, true_and, and_true]
termination_by sizeOf value

theorem writeItems_complete_iff (depth : Nat) (items : List Json) :
    (writeItems depth items).complete = true ↔ Readable (itemPaths items) := by
  cases items with
  | nil => simp [writeItems, itemPaths, Readable]
  | cons item items =>
    have first := write_complete_iff depth item
    have others := writeItems_complete_iff depth items
    simp only [writeItems, itemPaths, Draft.complete_append_iff, readable_append_iff, first,
      others, true_and]
termination_by sizeOf items

theorem writeFields_complete_iff (depth : Nat) (fields : List (Text × Json)) :
    (writeFields depth fields).complete = true ↔ Readable (fieldPaths fields) := by
  cases fields with
  | nil => simp [writeFields, fieldPaths, Readable]
  | cons field fields =>
    obtain ⟨name, value⟩ := field
    have first := write_complete_iff depth value
    have others := writeFields_complete_iff depth fields
    simp only [writeFields, fieldPaths, Draft.complete_append_iff, readable_append_iff, first,
      others, true_and]
termination_by sizeOf fields

end

theorem pretty_complete_iff (value : Json) :
    value.pretty.complete = true ↔ Readable value.paths := by
  rw [pretty, Draft.complete_append_iff, write_complete_iff]
  exact and_iff_left rfl

theorem written_pretty_object (fields : List (Text × Json)) :
    (pretty (.object fields)).written ≠ [] := by
  apply Draft.written_append_ne_nil
  cases fields with
  | nil => simp [write]
  | cons field fields =>
    rw [write]
    -- the brace stands in the first of the drafts
    refine Draft.written_append_ne_nil (Draft.written_append_ne_nil (Draft.written_append_ne_nil ?_))
    exact List.cons_ne_nil _ _

end Json

end ManualPages
