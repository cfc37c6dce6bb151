import Mathlib.Data.List.Basic
import ManualPages.Proofs.FirstOccurrences
import ManualPages.Proofs.Text.Pieces
import ManualPages.SearchPath

/-! # Segments under joining and appending

A search path is cut into segments and put together again; everything about appending follows
from which segments a path has afterwards.  The equation that carries the weight is
`segments_append`: a path that is not empty keeps its segments and gets the fresh ones of the
candidate.

* `segments_join`, `entries_join` — the segments of parts that are put together.
* `nil_mem_segments_iff` — where a path has an empty segment.
* `segments_append`, `entries_append` — the segments and the elements of an appended path.
* `append_assoc`, `appendAll_append` — the order of appending is all that counts.
* `mem_entries_appendAll`, `appendAll_eq_nil_iff` — the elements of candidates, and when there is
  nothing in them.
* `appendAll_eraseDups` — candidates, each of which counts once.
* `appendAll_of_whole` — candidates without colons, each of which is listed once.
* `Grouping` — texts put together in any grouping.
* `append_laws` — the laws of appending.
-/

namespace ManualPages

namespace SearchPath

/-! ## Cutting and joining -/

@[simp] theorem segments_nil : segments [] = [[]] := rfl

@[simp] theorem entries_nil : entries [] = [] := rfl

theorem segments_ne_nil (path : Text) : segments path ≠ [] := List.splitOn_ne_nil ':' path

@[simp] theorem segments_append_colon (before behind : Text) :
    segments (before ++ ':' :: behind) = segments before ++ segments behind :=
  List.splitOn_append_cons_self before behind

@[simp] theorem segments_colon (behind : Text) :
    segments (':' :: behind) = [] :: segments behind :=
  segments_append_colon [] behind

@[simp] theorem entries_append_colon (before behind : Text) :
    entries (before ++ ':' :: behind) = entries before ++ entries behind := by
  simp [entries]

@[simp] theorem entries_colon (behind : Text) : entries (':' :: behind) = entries behind :=
  entries_append_colon [] behind

@[simp] theorem join_segments (path : Text) : join (segments path) = path :=
  List.intercalate_splitOn ':'

@[simp] theorem join_singleton (part : Text) : join [part] = part := List.intercalate_singleton

theorem join_cons {parts : List Text} (first : Text) (nonempty : parts ≠ []) :
    join (first :: parts) = first ++ ':' :: join parts := by
  rw [join, List.intercalate_cons_of_ne_nil nonempty]
  simp [join]

theorem join_append {first second : List Text} (firstNonempty : first ≠ [])
    (secondNonempty : second ≠ []) :
    join (first ++ second) = join first ++ ':' :: join second := by
  induction first with
  | nil => contradiction
  | cons part parts ih =>
    cases parts with
    | nil => rw [List.singleton_append, join_cons part secondNonempty, join_singleton]
    | cons next parts =>
      rw [List.cons_append, join_cons part (by simp), ih (by simp), join_cons part (by simp)]
      simp

theorem join_join_cons (part : Text) (parts more : List Text) :
    join (join (part :: parts) :: more) = join (part :: (parts ++ more)) := by
  by_cases noMore : more = []
  · simp [noMore]
  · rw [join_cons _ noMore, ← List.cons_append, join_append (by simp) noMore]

/-- Joining joins the segments, whatever colons the parts have themselves. -/
theorem segments_join {parts : List Text} (nonempty : parts ≠ []) :
    segments (join parts) = parts.flatMap segments := by
  induction parts with
  | nil => contradiction
  | cons part parts ih =>
    cases parts with
    | nil => simp
    | cons next parts =>
      rw [join_cons part (by simp), segments_append_colon, ih (by simp)]
      rfl

theorem entries_join (parts : List Text) : entries (join parts) = parts.flatMap entries := by
  cases parts with
  | nil => rfl
  | cons part parts =>
    rw [entries, segments_join (by simp), List.filter_flatMap]
    rfl

theorem entries_joinParts (parts : List Text) :
    entries (joinParts parts) = parts.flatMap entries := by
  rw [joinParts, entries_join]
  induction parts with
  | nil => rfl
  | cons part parts ih => cases part <;> simp [ih]

theorem join_ne_nil {first : Text} {others : List Text} (filled : [] ∉ first :: others) :
    join (first :: others) ≠ [] := by
  simp only [List.mem_cons, not_or] at filled
  cases others with
  | nil => simpa using Ne.symm filled.1
  | cons next rest =>
    rw [join_cons first (by simp)]
    simp

theorem colon_notMem_of_mem_segments {path segment : Text} (member : segment ∈ segments path) :
    ':' ∉ segment :=
  notMem_of_mem_splitOn member

theorem segments_of_mem {path segment : Text} (member : segment ∈ segments path) :
    segments segment = [segment] :=
  List.splitOn_eq_singleton (colon_notMem_of_mem_segments member)

theorem segments_join_of_whole {parts : List Text} (nonempty : parts ≠ [])
    (whole : ∀ part ∈ parts, ':' ∉ part) : segments (join parts) = parts :=
  List.splitOn_intercalate ':' whole nonempty

/-- Cutting gives back segments that come from cutting. -/
theorem segments_join_of_subset {path : Text} {parts : List Text} (nonempty : parts ≠ [])
    (cut : parts ⊆ segments path) : segments (join parts) = parts :=
  segments_join_of_whole nonempty fun _ member => colon_notMem_of_mem_segments (cut member)

theorem entries_of_whole {part : Text} (filled : part ≠ []) (whole : ':' ∉ part) :
    entries part = [part] := by
  simp [entries, segments, List.splitOn_eq_singleton whole, filled]

theorem entries_join_of_whole {parts : List Text} (filled : [] ∉ parts)
    (whole : ∀ part ∈ parts, ':' ∉ part) : entries (join parts) = parts := by
  rw [entries_join]
  refine flatMap_eq_self fun part member => entries_of_whole ?_ (whole part member)
  rintro rfl
  exact filled member

/-- A path that is not empty has an empty segment exactly if it starts with a colon, ends with
    one, or has two in a row. -/
theorem nil_mem_segments_iff {path : Text} (nonempty : path ≠ []) :
    [] ∈ segments path ↔
      path.head? = some ':' ∨ path.getLast? = some ':' ∨
        ∃ before behind, path = before ++ ':' :: ':' :: behind := by
  constructor
  · intro member
    -- the path is the join of the segments before the empty one, of that one, and of those behind
    obtain ⟨before, behind, same⟩ := List.append_of_mem member
    have whole : path = join (before ++ [] :: behind) := by rw [← same, join_segments]
    by_cases noneBefore : before = []
    · by_cases noneBehind : behind = []
      · subst noneBefore noneBehind
        exact absurd whole nonempty
      · left
        rw [whole, noneBefore, List.nil_append, join_cons [] noneBehind]
        rfl
    · rw [join_append noneBefore (by simp)] at whole
      by_cases noneBehind : behind = []
      · right; left
        rw [whole, noneBehind]
        simp
      · right; right
        rw [join_cons [] noneBehind] at whole
        exact ⟨join before, join behind, whole⟩
  · rintro (leading | trailing | ⟨before, behind, rfl⟩)
    · obtain ⟨rest, rfl⟩ := List.head?_eq_some_iff.mp leading
      simp
    · obtain ⟨rest, rfl⟩ := List.getLast?_eq_some_iff.mp trailing
      simp
    · simp

/-! ## Appending -/

@[simp] theorem append_empty_left (path : Text) : append [] path = path := rfl

theorem append_of_ne_nil {path : Text} (nonempty : path ≠ []) (candidate : Text) :
    append path candidate = join (path :: fresh path candidate) := by
  simp [append, nonempty]

theorem mem_fresh {path candidate segment : Text} :
    segment ∈ fresh path candidate ↔
      segment ∈ segments candidate ∧ segment ≠ [] ∧ segment ∉ segments path := by
  simp [fresh]

theorem prefix_append (path candidate : Text) : path <+: append path candidate := by
  by_cases empty : path = []
  · simp [empty]
  · rw [append_of_ne_nil empty]
    by_cases nothingFresh : fresh path candidate = []
    · simp [nothingFresh]
    · rw [join_cons path nothingFresh]
      exact List.prefix_append _ _

theorem append_ne_nil {path : Text} (nonempty : path ≠ []) (candidate : Text) :
    append path candidate ≠ [] := by
  intro empty
  have := prefix_append path candidate
  rw [empty, List.prefix_nil] at this
  contradiction

/-- A path that is not empty keeps its segments and gets the fresh ones of the candidate. -/
theorem segments_append {path : Text} (nonempty : path ≠ []) (candidate : Text) :
    segments (append path candidate) = segments path ++ fresh path candidate := by
  rw [append_of_ne_nil nonempty, segments_join (by simp), List.flatMap_cons]
  congr 1
  -- what is fresh comes from cutting and is not cut once more
  exact flatMap_eq_self fun segment member => segments_of_mem (mem_fresh.mp member).1

/-- A candidate whose segments are all listed already changes nothing. -/
theorem append_eq_self {path candidate : Text} (nonempty : path ≠ [])
    (listed : ∀ segment ∈ segments candidate, segment ≠ [] → segment ∈ segments path) :
    append path candidate = path := by
  have nothingFresh : fresh path candidate = [] := by
    rw [List.eq_nil_iff_forall_not_mem]
    intro segment member
    obtain ⟨present, written, absent⟩ := mem_fresh.mp member
    exact absent (listed segment present written)
  rw [append_of_ne_nil nonempty, nothingFresh, join_singleton]

@[simp] theorem append_empty_right (path : Text) : append path [] = path := by
  by_cases empty : path = []
  · simp [empty]
  · exact append_eq_self empty (by simp)

@[simp] theorem append_self (path : Text) : append path path = path := by
  by_cases empty : path = []
  · simp [empty]
  · exact append_eq_self empty fun segment member _ => member

theorem append_append_self (path candidate : Text) :
    append (append path candidate) path = append path candidate := by
  by_cases empty : path = []
  · simp [empty]
  · refine append_eq_self (append_ne_nil empty candidate) fun segment member _ => ?_
    rw [segments_append empty]
    exact List.mem_append_left _ member

theorem append_assoc (first second third : Text) :
    append (append first second) third = append first (append second third) := by
  by_cases noFirst : first = []
  · simp [noFirst]
  by_cases noSecond : second = []
  · simp [noSecond]
  -- a segment of the third is fresh to the first two if it is fresh to either
  have sifted : fresh (append first second) third =
      (fresh second third).filter fun segment => !segment.isEmpty && !(segments first).contains segment := by
    rw [fresh, fresh, List.filter_filter, segments_append noFirst]
    refine List.filter_congr fun segment _ => ?_
    rw [Bool.eq_iff_iff]
    simp [mem_fresh]
    grind
  have both : fresh first (append second third) =
      fresh first second ++ fresh (append first second) third := by
    rw [sifted, fresh, segments_append noSecond, List.filter_append]
    rfl
  calc append (append first second) third
      = join (append first second :: fresh (append first second) third) :=
        append_of_ne_nil (append_ne_nil noFirst second) third
    _ = join (join (first :: fresh first second) :: fresh (append first second) third) := by
        rw [← append_of_ne_nil noFirst second]
    _ = join (first :: (fresh first second ++ fresh (append first second) third)) :=
        join_join_cons ..
    _ = join (first :: fresh first (append second third)) := by rw [both]
    _ = append first (append second third) :=
        (append_of_ne_nil noFirst (append second third)).symm

/-- The elements of the candidate come behind those of the path, unless they are listed already.
    This holds of the empty path as of any other. -/
theorem entries_append (path candidate : Text) :
    entries (append path candidate) =
      entries path ++ (entries candidate).filter (· ∉ entries path) := by
  by_cases empty : path = []
  · simp [empty]
  · rw [entries, segments_append empty, List.filter_append, fresh, List.filter_filter,
      entries, entries, List.filter_filter]
    congr 1
    refine List.filter_congr fun segment _ => ?_
    cases segment <;> simp

/-- An appended path has the elements of both. -/
theorem mem_entries_append {path candidate element : Text} :
    element ∈ entries (append path candidate) ↔
      element ∈ entries path ∨ element ∈ entries candidate := by
  rw [entries_append, List.mem_append, List.mem_filter]
  by_cases listed : element ∈ entries path <;> simp [listed]

theorem append_eq_nil_iff {path candidate : Text} :
    append path candidate = [] ↔ path = [] ∧ candidate = [] := by
  constructor
  · intro nothing
    have empty : path = [] := by
      by_contra nonempty
      exact append_ne_nil nonempty candidate nothing
    rw [empty] at nothing
    exact ⟨empty, nothing⟩
  · rintro ⟨rfl, rfl⟩
    rfl

/-! ## Sequences of candidates -/

@[simp] theorem appendAll_nil (path : Text) : appendAll path [] = path := rfl

theorem appendAll_append (path : Text) (first second : List Text) :
    appendAll path (first ++ second) = appendAll (appendAll path first) second :=
  List.foldl_append

theorem appendAll_concat (path : Text) (candidates : List Text) (candidate : Text) :
    appendAll path (candidates ++ [candidate]) = append (appendAll path candidates) candidate :=
  appendAll_append path candidates [candidate]

/-- Candidates can be appended to nothing first, and what they come to then at once. -/
theorem appendAll_eq (path : Text) (candidates : List Text) :
    appendAll path candidates = append path (appendAll [] candidates) := by
  induction candidates generalizing path with
  | nil => simp
  | cons candidate rest ih =>
    calc appendAll (append path candidate) rest
        = append (append path candidate) (appendAll [] rest) := ih _
      _ = append path (append candidate (appendAll [] rest)) := append_assoc ..
      _ = append path (appendAll candidate rest) := by rw [← ih]

/-- Candidates can be appended in two parts, of which each lists its segments by itself. -/
theorem appendAll_nil_append (first second : List Text) :
    appendAll [] (first ++ second) = append (appendAll [] first) (appendAll [] second) := by
  rw [appendAll_append, appendAll_eq]

theorem mem_entries_appendAll {candidates : List Text} {element : Text} :
    element ∈ entries (appendAll [] candidates) ↔
      ∃ candidate ∈ candidates, element ∈ entries candidate := by
  induction candidates using List.reverseRecOn with
  | nil => simp
  | append_singleton candidates candidate ih =>
    rw [appendAll_concat, mem_entries_append, ih]
    simp [or_and_right, exists_or]

theorem appendAll_eq_nil_iff {path : Text} {candidates : List Text} :
    appendAll path candidates = [] ↔ path = [] ∧ ∀ candidate ∈ candidates, candidate = [] := by
  induction candidates using List.reverseRecOn with
  | nil => simp
  | append_singleton candidates candidate ih =>
    rw [appendAll_concat, append_eq_nil_iff, ih, List.forall_mem_append]
    simp [and_assoc]

theorem nonEmpty?_eq_none_iff {path : Text} : nonEmpty? path = none ↔ path = [] := by
  simp [nonEmpty?]

theorem getD_nonEmpty? (path : Text) : (nonEmpty? path).getD [] = path := by
  unfold nonEmpty?
  split
  next empty => exact (List.isEmpty_iff.mp empty).symm
  · rfl

/-- A candidate that has been appended before changes nothing. -/
theorem append_of_mem {candidates : List Text} {candidate : Text}
    (member : candidate ∈ candidates) :
    append (appendAll [] candidates) candidate = appendAll [] candidates := by
  obtain ⟨before, behind, rfl⟩ := List.append_of_mem member
  have whole : appendAll [] (before ++ candidate :: behind) =
      append (appendAll [] before) (append candidate (appendAll [] behind)) := by
    rw [appendAll_nil_append, ← appendAll_eq candidate]
    rfl
  rw [whole, append_assoc, append_append_self]

/-- Only first occurrences of candidates count. -/
theorem appendAll_eraseDups (candidates : List Text) :
    appendAll [] candidates.eraseDups = appendAll [] candidates := by
  induction candidates using List.reverseRecOn with
  | nil => rfl
  | append_singleton candidates candidate ih =>
    rw [eraseDups_concat, appendAll_concat]
    split
    next listed => rw [ih, append_of_mem listed]
    · rw [appendAll_concat, ih]

/-- A path that is appended to itself stays as it is. -/
theorem appendAll_of_same {path : Text} {candidates : List Text}
    (same : ∀ candidate ∈ candidates, candidate = path) :
    appendAll [] candidates = [] ∨ appendAll [] candidates = path := by
  induction candidates using List.reverseRecOn with
  | nil => exact .inl rfl
  | append_singleton candidates candidate ih =>
    obtain rfl := same candidate (List.mem_append_right _ List.mem_cons_self)
    right
    rw [appendAll_concat]
    obtain nothing | whole := ih fun other member => same other (List.mem_append_left _ member)
    · rw [nothing, append_empty_left]
    · rw [whole, append_self]

/-! ## Candidates without colons -/

theorem append_join_of_whole {parts : List Text} {candidate : Text} (filled : [] ∉ parts)
    (whole : ∀ part ∈ candidate :: parts, ':' ∉ part) (written : candidate ≠ []) :
    append (join parts) candidate =
      if candidate ∈ parts then join parts else join (parts ++ [candidate]) := by
  cases parts with
  | nil => simp [join]
  | cons first others =>
    have wholeParts : ∀ part ∈ first :: others, ':' ∉ part := fun part member =>
      whole part (List.mem_cons_of_mem candidate member)
    have nonempty := join_ne_nil filled
    have alone : segments candidate = [candidate] :=
      List.splitOn_eq_singleton (whole candidate List.mem_cons_self)
    have listedParts := segments_join_of_whole (by simp) wholeParts
    by_cases listed : candidate ∈ first :: others
    · rw [if_pos listed]
      refine append_eq_self nonempty fun segment member _ => ?_
      obtain rfl : segment = candidate := by simpa [alone] using member
      rw [listedParts]
      exact listed
    · rw [if_neg listed, append_of_ne_nil nonempty, fresh, alone, listedParts,
        List.filter_cons_of_pos (by simpa [written] using listed), List.filter_nil, join_join_cons,
        List.cons_append]

/-- Candidates without colons come to a path of those that are not empty, each once. -/
theorem appendAll_of_whole {candidates : List Text} (whole : ∀ part ∈ candidates, ':' ∉ part) :
    appendAll [] candidates = join (candidates.filter (! ·.isEmpty)).eraseDups := by
  induction candidates using List.reverseRecOn with
  | nil => rfl
  | append_singleton candidates candidate ih =>
    have front := ih fun part member => whole part (List.mem_append_left _ member)
    rw [appendAll_concat, front]
    by_cases empty : candidate = []
    · simp [empty]
    · -- what is listed so far are the parts of the path that the candidate is appended to
      have filled : [] ∉ (candidates.filter (! ·.isEmpty)).eraseDups := by simp
      have wholeListed : ∀ part ∈ candidate :: (candidates.filter (! ·.isEmpty)).eraseDups,
          ':' ∉ part := by
        intro part member
        refine whole part ?_
        simp only [List.mem_cons, List.mem_eraseDups, List.mem_filter] at member
        obtain rfl | ⟨listed, -⟩ := member
        · simp
        · simp [listed]
      rw [append_join_of_whole filled wholeListed empty, List.filter_append]
      by_cases listed : candidate ∈ candidates <;> simp [eraseDups_concat, listed, empty]

theorem join_eraseDups_ne_nil {candidates : List Text} (written : [] ∉ candidates)
    (found : candidates ≠ []) : join candidates.eraseDups ≠ [] := by
  obtain ⟨first, others, rfl⟩ := List.exists_cons_of_ne_nil found
  rw [← List.mem_eraseDups] at written
  rw [List.eraseDups_cons] at written ⊢
  exact join_ne_nil written

/-- Candidates without colons, none of which is empty, come to a path unless there are none. -/
theorem nonEmpty?_appendAll_of_whole {candidates : List Text} (written : [] ∉ candidates)
    (whole : ∀ part ∈ candidates, ':' ∉ part) :
    nonEmpty? (appendAll [] candidates) =
      if candidates = [] then none else some (join candidates.eraseDups) := by
  have all : candidates.filter (! ·.isEmpty) = candidates := by
    rw [List.filter_eq_self]
    rintro (_ | ⟨c, rest⟩) member
    · exact absurd member written
    · rfl
  rw [appendAll_of_whole whole, all]
  by_cases found : candidates = []
  · rw [if_pos found, found]
    rfl
  · have nonempty := join_eraseDups_ne_nil written found
    simp [nonEmpty?, found, nonempty]

/-! ## Groupings -/

/-- Texts that are appended to each other in some grouping. -/
inductive Grouping where
  | piece (text : Text)
  | both (first second : Grouping)

namespace Grouping

def value : Grouping → Text
  | piece text => text
  | both first second => append first.value second.value

/-- The texts from left to right, without their grouping. -/
def pieces : Grouping → List Text
  | piece text => [text]
  | both first second => first.pieces ++ second.pieces

theorem value_eq (grouping : Grouping) : grouping.value = appendAll [] grouping.pieces := by
  induction grouping with
  | piece text => rfl
  | both first second ihFirst ihSecond =>
    rw [value, pieces, ihFirst, ihSecond, appendAll_nil_append]

end Grouping

/-- Appending is associative, with the empty path as its unit, and a path that has been taken in
    once adds nothing any more; the path appended to stays as the beginning.  So texts come to the
    same path in whatever grouping they are appended. -/
theorem append_laws :
    (∀ a b c, append (append a b) c = append a (append b c)) ∧
    (∀ a, append [] a = a ∧ append a [] = a ∧ append a a = a) ∧
    (∀ a b, append (append a b) a = append a b ∧ a <+: append a b) ∧
    ∀ grouping : Grouping, grouping.value = appendAll [] grouping.pieces := by
  refine ⟨append_assoc, fun a => ?_, fun a b => ?_, Grouping.value_eq⟩
  · exact ⟨append_empty_left a, append_empty_right a, append_self a⟩
  · exact ⟨append_append_self a b, prefix_append a b⟩

/-- The path appended to keeps its stray colons, the candidate does not. -/
example : append "/a::/a".toList ":/b:/a".toList = "/a::/a:/b".toList := by decide

end SearchPath

end ManualPages
