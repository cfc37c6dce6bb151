import ManualPages.Finder.Basic
import ManualPages.Proofs.SearchPath.Appending
import ManualPages.Proofs.SystemDirectories.Extension

/-! # The search path from the environment

A search path in the environment takes in the configured path at its first empty element, and
stands in place of it where it has none.  `exists_takesIn_iff` says that the tests for a leading
colon, a trailing one and a double one find an empty element exactly where there is one; what
becomes of the other elements follows from the elements of parts that are put together.

* `Text.FirstDouble` — the first two separators in a row.
* `TakesIn` — the place where a path takes in the configured one.
* `SystemDirectories.OnlyNative` — no alternate systems.
* `overriddenPath_of_takesIn`, `overriddenPath_of_notMem` — the path with and without such a place.
* `manualPath_outcome` — the search path that one from the environment asks for.
-/

namespace ManualPages

/-! ## Two separators in a row -/

namespace Text

/-- The parts of a text before and after its first two separators in a row. -/
structure FirstDouble (sep : Char) (t before behind : Text) : Prop where
  whole : t = before ++ sep :: sep :: behind
  first : ∀ earlier later, t = earlier ++ sep :: sep :: later → before.length ≤ earlier.length

variable {sep : Char} {t : Text}

theorem FirstDouble.unique {before behind before' behind' : Text}
    (one : FirstDouble sep t before behind) (other : FirstDouble sep t before' behind') :
    before = before' ∧ behind = behind' := by
  have sameLength : before.length = before'.length :=
    Nat.le_antisymm (one.first _ _ other.whole) (other.first _ _ one.whole)
  obtain ⟨sameBefore, sameRest⟩ := List.append_inj (one.whole.symm.trans other.whole) sameLength
  exact ⟨sameBefore, by simpa using sameRest⟩

theorem ne_of_splitAtDouble?_eq_none (failed : splitAtDouble? sep t = none)
    (before behind : Text) : t ≠ before ++ sep :: sep :: behind := by
  fun_induction splitAtDouble? sep t generalizing before with
  | case1 => simp
  | case2 c => cases before <;> simp
  | case3 c d rest double => contradiction
  | case4 c d rest single ih =>
    intro whole
    cases before with
    | nil =>
      obtain ⟨rfl, rfl, -⟩ : c = sep ∧ d = sep ∧ rest = behind := by simpa using whole
      exact single ⟨rfl, rfl⟩
    | cons first before =>
      rw [List.cons_append, List.cons.injEq] at whole
      exact ih (by simpa using failed) before whole.2

theorem firstDouble_of_splitAtDouble? {before behind : Text}
    (split : splitAtDouble? sep t = some (before, behind)) : FirstDouble sep t before behind := by
  fun_induction splitAtDouble? sep t generalizing before with
  | case1 => contradiction
  | case2 c => contradiction
  | case3 c d rest double =>
    obtain ⟨rfl, rfl⟩ := double
    obtain ⟨rfl, rfl⟩ : [] = before ∧ rest = behind := by simpa using split
    exact ⟨rfl, fun _ _ _ => Nat.zero_le _⟩
  | case4 c d rest single ih =>
    obtain ⟨⟨shorter, _⟩, found, same⟩ := Option.map_eq_some_iff.mp split
    obtain ⟨rfl, rfl⟩ := Prod.mk.inj same
    obtain ⟨whole, first⟩ := ih found
    refine ⟨by rw [whole, List.cons_append], fun earlier later again => ?_⟩
    -- the two separators do not stand at the very beginning, so `first` counts one less
    cases earlier with
    | nil =>
      obtain ⟨rfl, rfl, -⟩ : c = sep ∧ d = sep ∧ rest = later := by simpa using again
      exact absurd ⟨rfl, rfl⟩ single
    | cons _ earlier =>
      rw [List.cons_append, List.cons.injEq] at again
      exact Nat.succ_le_succ (first earlier later again.2)

theorem FirstDouble.splitAtDouble? {before behind : Text}
    (double : FirstDouble sep t before behind) :
    t.splitAtDouble? sep = some (before, behind) := by
  cases split : Text.splitAtDouble? sep t with
  | none => exact absurd double.whole (ne_of_splitAtDouble?_eq_none split before behind)
  | some parts =>
    obtain ⟨sameBefore, sameBehind⟩ := double.unique (firstDouble_of_splitAtDouble? split)
    rw [sameBefore, sameBehind]

end Text

/-! ## The place of the configured path -/

open SearchPath (segments entries joinParts)

/-- Where a path takes in the configured one: in front, else at the end, else at its first double
    colon.  The parts before and after that place are given, as far as there are any. -/
inductive TakesIn : Text → Option Text → Option Text → Prop where
  | front (rest : Text) : TakesIn (':' :: rest) none (some rest)
  | back (rest : Text) (notFront : (rest ++ [':']).head? ≠ some ':') :
      TakesIn (rest ++ [':']) (some rest) none
  | between {path before behind : Text} (notFront : path.head? ≠ some ':')
      (notBack : path.getLast? ≠ some ':') (double : Text.FirstDouble ':' path before behind) :
      TakesIn path (some before) (some behind)

variable {path : Text} {before? behind? : Option Text}

/-- A path takes in the configured one exactly if one of its elements is empty. -/
theorem exists_takesIn_iff (nonempty : path ≠ []) :
    (∃ before? behind?, TakesIn path before? behind?) ↔ [] ∈ segments path := by
  rw [SearchPath.nil_mem_segments_iff nonempty]
  constructor
  · rintro ⟨_, _, takes⟩
    cases takes with
    | front rest => exact .inl rfl
    | back rest _ => exact .inr (.inl (by simp))
    | between _ _ double => exact .inr (.inr ⟨_, _, double.whole⟩)
  · intro empty
    by_cases leading : path.head? = some ':'
    · obtain ⟨rest, rfl⟩ := List.head?_eq_some_iff.mp leading
      exact ⟨_, _, .front rest⟩
    by_cases trailing : path.getLast? = some ':'
    · obtain ⟨rest, rfl⟩ := List.getLast?_eq_some_iff.mp trailing
      exact ⟨_, _, .back rest leading⟩
    -- there is a double colon somewhere, so the search for the first one finds it
    obtain ⟨before, behind, whole⟩ := (empty.resolve_left leading).resolve_left trailing
    cases split : path.splitAtDouble? ':' with
    | none => exact absurd whole (Text.ne_of_splitAtDouble?_eq_none split before behind)
    | some parts =>
      exact ⟨_, _, .between leading trailing (Text.firstDouble_of_splitAtDouble? split)⟩

theorem entries_of_takesIn (takes : TakesIn path before? behind?) :
    entries path = before?.toList.flatMap entries ++ behind?.toList.flatMap entries := by
  cases takes with
  | front rest => simp
  | back rest _ => simp
  | between _ _ double => simp [double.whole]

/-! ## No alternate systems -/

namespace SystemDirectories

/-- The systems are none but the native one, if there are any. -/
def OnlyNative (systems? : Option Text) : Prop :=
  ∀ system ∈ systems?.elim [] names, system = native

theorem extend_of_onlyNative (tree : FileTree) {systems? : Option Text}
    (only : OnlyNative systems?) (path : Text) : (extend tree systems? path).value = path := by
  cases systems? with
  | none => rfl
  | some systems =>
    have offered : ∀ candidate ∈ (names systems).flatMap (contributions tree path),
        candidate = path := by
      intro candidate member
      obtain ⟨system, listed, offers⟩ := List.mem_flatMap.mp member
      obtain rfl := only system listed
      exact List.mem_singleton.mp offers
    rw [extend_value, SearchPath.nonEmpty?]
    obtain unchanged | unchanged := SearchPath.appendAll_of_same offered
    · rw [unchanged]
      rfl
    · rw [unchanged]
      split <;> rfl

end SystemDirectories

/-! ## The answer -/

namespace Finder

variable (tree : FileTree) (finder : Finder)

theorem afterLoading_result {α : Type} (ask : Finder → Traced (Except Failure α))
    (loads : (finder.load tree).value.failure? = none) :
    (afterLoading tree finder ask).value.result = (ask (finder.load tree).value.state).value := by
  simp [afterLoading, loads]

/-- At its place the configured path comes between the two parts, which are extended for the
    systems in force. -/
theorem overriddenPath_of_takesIn (takes : TakesIn path before? behind?) :
    (overriddenPath tree finder (.ofPath path)).value =
      match (loadedDefaultPath tree finder).value with
      | .error failure => .error failure
      | .ok middle =>
        .ok (joinParts ((before?.toList.map fun part => (finder.systemPath tree none part).value) ++
          middle :: behind?.toList.map fun part => (finder.systemPath tree none part).value)) := by
  -- the tests find the place that the relation gives, and what is left is the definition there
  cases takes with
  | front rest =>
    have test : Override.ofPath (':' :: rest) = .front rest := by simp [Override.ofPath]
    simp only [test, overriddenPath, Traced.value_bind]
    cases (loadedDefaultPath tree finder).value <;> rfl
  | back rest notFront =>
    have test : Override.ofPath (rest ++ [':']) = .back rest := by
      rw [Override.ofPath, if_neg notFront, if_pos (by simp), List.dropLast_concat]
    simp only [test, overriddenPath, Traced.value_bind]
    cases (loadedDefaultPath tree finder).value <;> rfl
  | @between _ before behind notFront notBack double =>
    have test : Override.ofPath path = .between before behind := by
      rw [Override.ofPath, if_neg notFront, if_neg notBack, double.splitAtDouble?]
    simp only [test, overriddenPath, Traced.value_bind]
    cases (loadedDefaultPath tree finder).value <;> rfl

theorem overriddenPath_of_notMem (nonempty : path ≠ []) (full : [] ∉ segments path) :
    (overriddenPath tree finder (.ofPath path)).value =
      .ok (finder.systemPath tree none path).value := by
  rw [SearchPath.nil_mem_segments_iff nonempty, not_or, not_or] at full
  obtain ⟨notFront, notBack, single⟩ := full
  have test : Override.ofPath path = .whole path := by
    rw [Override.ofPath, if_neg notFront, if_neg notBack]
    cases split : path.splitAtDouble? ':' with
    | none => rfl
    | some parts =>
      exact absurd ⟨_, _, (Text.firstDouble_of_splitAtDouble? split).whole⟩ single
  simp [test, overriddenPath]

theorem manualPath_result (given : finder.env.manualPath = some path) (nonempty : path ≠ [])
    (loads : (finder.load tree).value.failure? = none) :
    (manualPath tree finder).value.result =
      (overriddenPath tree (finder.load tree).value.state (.ofPath path)).value := by
  have inForce : (finder.load tree).value.state.env.override? = some path := by
    change finder.env.override? = some path
    simp [Environment.override?, given, nonempty]
  rw [manualPath, afterLoading_result tree finder _ loads, loadedManualPath, inForce]

/-- A search path from the environment without an empty element is the answer, extended for the
    systems in force; neither the search path for programs nor the configuration counts.  One with
    an empty element takes in the configured path, once and at the place that `TakesIn` says: the
    elements of the answer are those of the part before, extended, those of the configured path,
    and those of the part behind, extended.  If there is no configured path there is no answer.
    Without alternate systems the parts are not extended. -/
theorem manualPath_outcome (tree : FileTree) (finder : Finder) (path : Text)
    (given : finder.env.manualPath = some path) (nonempty : path ≠ [])
    (loads : (finder.load tree).value.failure? = none) :
    let extended (part : Text) := (finder.systemPath tree none part).value
    let answer := (manualPath tree finder).value.result
    let configured := (defaultPath tree finder).value.result
    ([] ∉ segments path → answer = .ok (extended path) ∧
      ∀ other : Finder, other.env.manualPath = some path →
        (other.load tree).value.failure? = none →
        other.systemsInForce none = finder.systemsInForce none →
        (manualPath tree other).value.result = answer) ∧
    ([] ∈ segments path ↔ ∃ before? behind?, TakesIn path before? behind?) ∧
    (∀ before? behind?, TakesIn path before? behind? →
      (∀ failure, configured = .error failure → answer = .error failure) ∧
      ∀ middle, configured = .ok middle → ∃ result, answer = .ok result ∧
        entries result = before?.toList.flatMap (fun part => entries (extended part)) ++
          entries middle ++ behind?.toList.flatMap fun part => entries (extended part)) ∧
    (SystemDirectories.OnlyNative (finder.systemsInForce none) →
      ([] ∉ segments path → answer = .ok path) ∧
      ∀ before? behind?, TakesIn path before? behind? →
        entries path = before?.toList.flatMap entries ++ behind?.toList.flatMap entries ∧
        ∀ middle, configured = .ok middle → ∃ result, answer = .ok result ∧
          entries result = before?.toList.flatMap entries ++ entries middle ++
            behind?.toList.flatMap entries) := by
  intro extended answer configured
  have answered := manualPath_result tree finder given nonempty loads
  have configuredIs : configured = (loadedDefaultPath tree (finder.load tree).value.state).value :=
    afterLoading_result tree finder (loadedDefaultPath tree) loads
  have whole (full : [] ∉ segments path) : answer = .ok (extended path) :=
    answered.trans (overriddenPath_of_notMem tree _ nonempty full)
  have spliced (before? behind? : Option Text) (takes : TakesIn path before? behind?)
      (middle : Text) (made : configured = .ok middle) : ∃ result, answer = .ok result ∧
        entries result = before?.toList.flatMap (fun part => entries (extended part)) ++
          entries middle ++ behind?.toList.flatMap fun part => entries (extended part) := by
    have placed := answered.trans (overriddenPath_of_takesIn tree _ takes)
    rw [← configuredIs, made] at placed
    refine ⟨_, placed, ?_⟩
    simp only [SearchPath.entries_joinParts, List.flatMap_append, List.flatMap_cons,
      List.flatMap_map, List.append_assoc]
    rfl
  refine ⟨fun full => ⟨whole full, ?_⟩, (exists_takesIn_iff nonempty).symm, ?_, ?_⟩
  · intro other otherGiven otherLoads sameSystems
    rw [manualPath_result tree other otherGiven nonempty otherLoads,
      overriddenPath_of_notMem tree _ nonempty full, whole full]
    change Except.ok (SystemDirectories.extend tree (other.systemsInForce none) path).value = _
    rw [sameSystems]
    rfl
  · intro before? behind? takes
    refine ⟨fun failure failed => ?_, spliced before? behind? takes⟩
    have placed := answered.trans (overriddenPath_of_takesIn tree _ takes)
    rw [← configuredIs, failed] at placed
    exact placed
  · intro native
    have same (part : Text) : extended part = part :=
      SystemDirectories.extend_of_onlyNative tree native part
    refine ⟨fun full => by rw [whole full, same], fun before? behind? takes => ?_⟩
    refine ⟨entries_of_takesIn takes, fun middle made => ?_⟩
    simpa only [same] using spliced before? behind? takes middle made

/-- A mandatory hierarchy, and another one with pages for an alternate system. -/
def twoHierarchies : FileTree where
  root := .directory [
    (Octets.encode "manpath.config".toList,
      .file (Octets.encode "MANDATORY_MANPATH /man\n".toList)),
    (Octets.encode "man".toList, .directory []),
    (Octets.encode "a".toList, .directory [(Octets.encode "sun".toList, .directory [])])]

/-- A finder for an alternate system, with three colons in a row in its search path. -/
def forSun : Finder where
  env := { manualPath := some "/a:::/b".toList, systems := some "sun".toList }
  options := { load := { systemFile := Octets.encode "/manpath.config".toList } }
  expander := .table []

/-- The first two colons are the place; the third one belongs to the part behind. -/
theorem manualPath_outcome_of_three_colons :
    forSun.env.manualPath = some "/a:::/b".toList ∧
      (forSun.load twoHierarchies).value.failure? = none ∧
      TakesIn "/a:::/b".toList (some "/a".toList) (some ":/b".toList) ∧
      ∃ result, (manualPath twoHierarchies forSun).value.result = .ok result ∧
        entries result = ["/a/sun".toList, "/man".toList, "/b".toList] := by
  have loads : (forSun.load twoHierarchies).value.failure? = none := by decide
  have takes : TakesIn "/a:::/b".toList (some "/a".toList) (some ":/b".toList) :=
    .between (by decide) (by decide) (Text.firstDouble_of_splitAtDouble? (by decide))
  obtain ⟨-, -, spliced, -⟩ :=
    manualPath_outcome twoHierarchies forSun "/a:::/b".toList rfl (by decide) loads
  obtain ⟨result, answered, same⟩ := (spliced _ _ takes).2 "/man".toList rfl
  exact ⟨rfl, loads, takes, result, answered, same.trans (by decide)⟩

end Finder

end ManualPages
