import ManualPages.Proofs.Configuration.Loading
import ManualPages.Proofs.FirstOccurrences
import ManualPages.Proofs.Text.Pieces

/-! # Texts read line by line

A text that ends a line can be cut from what follows it, and reading both parts one after the
other is reading the whole.  `lines_append` says where the cut is harmless, and
`Reading.ofText_append` carries the rest: the lines of the first part only move the numbers of
those in the second.

* `Text.lines_cons`, `lines_of_unbroken`, `lines_append`, `lines_withReturns` — the lines of texts
  that are put together, and of a text whose lines end in a carriage return as well.
* `Configuration.afterLine`, `afterLines` — lines applied in order, whatever comes after them.
* `readText_outcome` — what reading a text leaves behind, in parts and as a whole.
-/

namespace ManualPages

/-! ## Lines -/

namespace Text

/-- The text with a carriage return before each line feed. -/
def withReturns (t : Text) : Text := t.flatMap fun c => if c = '\n' then ['\r', '\n'] else [c]

theorem dropReturn_of_notMem {line : Text} (plain : '\r' ∉ line) : dropReturn line = line := by
  fun_induction dropReturn line with
  | case1 => rfl
  | case2 => simp at plain
  | case3 c rest _ ih =>
    simp only [List.mem_cons, not_or] at plain
    rw [ih plain.2]

theorem dropReturn_return (line : Text) : dropReturn (line ++ ['\r']) = line := by
  induction line with
  | nil => rfl
  | cons c rest ih =>
    cases rest with
    | nil => simp [dropReturn]
    | cons d rest => simpa [dropReturn] using ih

theorem close_append (first : List Text) {second : List Text} (nonempty : second ≠ []) :
    lines.close (first ++ second) = first.map dropReturn ++ lines.close second := by
  induction first with
  | nil => rfl
  | cons piece pieces ih =>
    -- only the very last piece is treated as one without a line feed, and that is in `second`
    obtain ⟨next, others, same⟩ := List.exists_cons_of_ne_nil
      (List.append_ne_nil_of_right_ne_nil pieces nonempty)
    rw [List.cons_append, same, lines.close, ← same, ih]
    · rfl
    · simp

theorem lines_append_feed (before behind : Text) :
    lines (before ++ '\n' :: behind) = (before.splitOn '\n').map dropReturn ++ lines behind := by
  rw [lines, List.splitOn_append_cons_self, close_append _ (List.splitOn_ne_nil '\n' behind)]
  rfl

theorem lines_cons {line : Text} (unbroken : '\n' ∉ line) (rest : Text) :
    lines (line ++ '\n' :: rest) = dropReturn line :: lines rest := by
  rw [lines_append_feed, List.splitOn_eq_singleton unbroken]
  rfl

theorem lines_of_unbroken {line : Text} (unbroken : '\n' ∉ line) (written : line ≠ []) :
    lines line = [line] := by
  rw [lines, List.splitOn_eq_singleton unbroken, lines.close, if_neg (by simpa using written)]

/-- Where a text ends a line, the lines of what follows are its own. -/
theorem lines_append {first : Text} (ended : first = [] ∨ first.getLast? = some '\n')
    (second : Text) : lines (first ++ second) = lines first ++ lines second := by
  obtain rfl | last := ended
  · rfl
  · obtain ⟨before, rfl⟩ := List.getLast?_eq_some_iff.mp last
    have alone : lines (before ++ ['\n']) = (before.splitOn '\n').map dropReturn := by
      rw [lines_append_feed]
      simp [lines, lines.close]
    rw [alone, List.append_assoc, List.singleton_append, lines_append_feed]

theorem withReturns_append (first second : Text) :
    withReturns (first ++ second) = withReturns first ++ withReturns second :=
  List.flatMap_append

theorem withReturns_of_notMem {line : Text} (unbroken : '\n' ∉ line) : withReturns line = line := by
  refine flatMap_eq_self fun c member => if_neg ?_
  rintro rfl
  exact unbroken member

theorem lines_withReturns (t : Text) (plain : '\r' ∉ t) : lines (withReturns t) = lines t := by
  by_cases broken : '\n' ∈ t
  · -- the first line loses the carriage return again, the rest is shorter
    obtain ⟨line, rest, same, unbroken⟩ := List.eq_append_cons_of_mem broken
    have shorter : rest.length < t.length := by
      simp only [same, List.length_append, List.length_cons]
      omega
    have plainLine : '\r' ∉ line := by
      intro member
      exact plain (by simp [same, member])
    have plainRest : '\r' ∉ rest := by
      intro member
      exact plain (by simp [same, member])
    have first : withReturns (line ++ '\n' :: rest) =
        (line ++ ['\r']) ++ '\n' :: withReturns rest := by
      rw [withReturns_append, withReturns_of_notMem unbroken]
      simp [withReturns]
    rw [same, first, lines_cons (by simpa using unbroken), lines_cons unbroken, dropReturn_return,
      dropReturn_of_notMem plainLine, lines_withReturns rest plainRest]
  · rw [withReturns_of_notMem broken]
termination_by t.length

end Text

/-! ## The first line at fault -/

theorem takeWhile_of_firstFault {lines : List Text} {number : Nat} {fault : DeclarationError}
    (first : FirstFault lines number fault) :
    lines.takeWhile Understood = lines.take (number - 1) := by
  obtain ⟨before, line, rest, rfl, rfl, sound, error⟩ := first
  rw [List.takeWhile_append_of_pos sound, List.takeWhile_cons_of_neg (not_understood_of_error error)]
  simp

theorem declarationsOf_append (first second : List Text) :
    declarationsOf (first ++ second) = declarationsOf first ++ declarationsOf second :=
  List.filterMap_append

theorem firstFault?_append {first : List Text} (sound : ∀ line ∈ first, Understood line)
    (second : List Text) :
    firstFault? (first ++ second) =
      (firstFault? second).map fun (before, fault) => (first.length + before, fault) := by
  induction first with
  | nil => cases found : firstFault? second <;> simp [found]
  | cons line rest ih =>
    have soundRest : ∀ line ∈ rest, Understood line := fun line member =>
      sound line (List.mem_cons_of_mem _ member)
    cases parsed : Declaration.parse line with
    | error fault => exact absurd (sound line List.mem_cons_self) (not_understood_of_error parsed)
    | ok declaration? =>
      simp only [List.cons_append, firstFault?, parsed, ih soundRest]
      cases firstFault? second with
      | none => rfl
      | some found => simp [Nat.add_right_comm]

/-- The failure with the number of its line counted from so many lines before. -/
def Failure.later (lines : Nat) : Failure → Failure
  | .lineNotUnderstood path number reason => .lineNotUnderstood path (lines + number) reason
  | failure => failure

theorem Reading.ofText_append (owner : Owner) (path : Octets) {first : Text}
    (ended : first = [] ∨ first.getLast? = some '\n')
    (complete : (ofText owner path first).failure? = none) (second : Text) :
    (ofText owner path (first ++ second)).entries =
        (ofText owner path first).entries ++ (ofText owner path second).entries ∧
      (ofText owner path (first ++ second)).failure? =
        (ofText owner path second).failure?.map (Failure.later first.lines.length) := by
  have sound := (ofText_sound_iff owner path first).mp complete
  simp only [ofText, Text.lines_append ended, firstFault?_append sound, declarationsOf_append,
    List.takeWhile_append_of_pos sound, (firstFault?_eq_none_iff _).mpr sound,
    takeWhile_understood sound]
  cases firstFault? second.lines with
  | none => simp
  | some found => simp [Failure.later, Nat.add_assoc]

/-! ## Lines applied in order -/

namespace Configuration

section Lines

variable (owner : Owner) (config : Configuration)

/-- The effect of a line, which has none unless it declares something. -/
def afterLine (line : Text) : Configuration :=
  match Declaration.ofLine? line with
  | some declaration => (config.apply owner declaration).value
  | none => config

/-- The effect of lines in order. -/
def afterLines (lines : List Text) : Configuration := lines.foldl (afterLine owner) config

theorem afterLine_eq (line : Text) :
    config.afterLine owner line = config.after ((declarationsOf [line]).map (⟨owner, ·⟩)) [] := by
  cases declared : Declaration.ofLine? line with
  | none => simp [afterLine, declarationsOf, declared]
  | some declaration => simp [afterLine, declarationsOf, declared, apply_value]

theorem afterLines_eq (lines : List Text) :
    config.afterLines owner lines = config.after ((declarationsOf lines).map (⟨owner, ·⟩)) [] := by
  induction lines generalizing config with
  | nil => simp [afterLines, declarationsOf]
  | cons line rest ih =>
    calc config.afterLines owner (line :: rest)
        = (config.afterLine owner line).after ((declarationsOf rest).map (⟨owner, ·⟩)) [] := ih _
      _ = config.after ((declarationsOf ([line] ++ rest)).map (⟨owner, ·⟩)) [] := by
        rw [afterLine_eq, after_after, declarationsOf_append, List.map_append, List.append_nil]

end Lines

/-! ## Texts in parts -/

variable (config : Configuration) (owner : Owner) (path : Octets)

theorem readText_append {first : Text} (ended : first = [] ∨ first.getLast? = some '\n')
    (complete : (config.readText first path owner).value.failure? = none) (second : Text) :
    let rest := ((config.readText first path owner).value.state.readText second path owner).value
    let whole := (config.readText (first ++ second) path owner).value
    whole.state.catalog = rest.state.catalog ∧ whole.state.formatting = rest.state.formatting ∧
      whole.failure? = rest.failure?.map (Failure.later first.lines.length) := by
  intro rest whole
  rw [readText_value] at complete
  obtain ⟨entries, failure⟩ := Reading.ofText_append owner path ended complete second
  simp only [rest, whole, readText_value, after_after, entries]
  exact ⟨rfl, rfl, failure⟩

theorem readText_of_failure {text : Text} {failure : Failure}
    (failed : (config.readText text path owner).value.failure? = some failure) :
    ∃ number fault, FirstFault text.lines number fault ∧
      failure = .lineNotUnderstood path number fault.message ∧
      (config.readText text path owner).value.state =
        config.afterLines owner (text.lines.take (number - 1)) := by
  rw [readText_value] at failed
  obtain ⟨number, fault, first, rfl⟩ := (Reading.ofText_failure_iff owner path text _).mp failed
  have applied : (Reading.ofText owner path text).entries =
      (declarationsOf (text.lines.take (number - 1))).map (⟨owner, ·⟩) := by
    rw [← takeWhile_of_firstFault first, Reading.ofText]
    cases firstFault? text.lines <;> rfl
  have noSource : (Reading.ofText owner path text).sources = [] := by
    simp only [Reading.ofText] at failed ⊢
    cases found : firstFault? text.lines with
    | none => simp [found] at failed
    | some fault => rfl
  refine ⟨number, fault, first, rfl, ?_⟩
  rw [readText_value, afterLines_eq, ← applied, ← noSource]

theorem readText_of_complete {text : Text}
    (complete : (config.readText text path owner).value.failure? = none) :
    (config.readText text path owner).value.state =
      { config.afterLines owner text.lines with sources := config.sources ++ [⟨path, owner⟩] } := by
  rw [readText_value] at complete
  have sound := (Reading.ofText_sound_iff owner path text).mp complete
  have whole := @Reading.ofText_of_sound ⟨⟨path, owner⟩, text⟩ sound
  rw [readText_value, afterLines_eq, whole]
  simp [Configuration.after, TextFile.entries]

theorem records_prefix_readText (text : Text) :
    config.catalog.records <+: (config.readText text path owner).value.state.catalog.records := by
  rw [readText_value]
  exact List.prefix_append _ _

/-- A text can be read in parts: where the first part ends a line and is understood, the whole is
    read as the second part is after it, and a fault in the second part is at its line of the
    whole.  Lines are applied in order up to the first one at fault, where no source is added;
    without a fault exactly one is.  The records that were there stay in front, and carriage
    returns at the ends of all lines make no difference. -/
theorem readText_outcome (config : Configuration) (owner : Owner) (path : Octets) :
    (∀ first second : Text, (first = [] ∨ first.getLast? = some '\n') →
      (config.readText first path owner).value.failure? = none →
      let rest := ((config.readText first path owner).value.state.readText second path owner).value
      let whole := (config.readText (first ++ second) path owner).value
      (whole.failure? = none ↔ rest.failure? = none) ∧
      whole.state.catalog = rest.state.catalog ∧
      whole.state.formatting = rest.state.formatting ∧
      ∀ failure, rest.failure? = some failure → ∃ number reason,
        failure = .lineNotUnderstood path number reason ∧
        whole.failure? = some (.lineNotUnderstood path (first.lines.length + number) reason)) ∧
    (∀ text : Text,
      let outcome := (config.readText text path owner).value
      (outcome.failure? = none ↔ ∀ line ∈ text.lines, Understood line) ∧
      (∀ failure, outcome.failure? = some failure → ∃ number fault,
        FirstFault text.lines number fault ∧
        failure = .lineNotUnderstood path number fault.message ∧
        outcome.state = config.afterLines owner (text.lines.take (number - 1)) ∧
        outcome.state.sources = config.sources) ∧
      (outcome.failure? = none →
        outcome.state =
          { config.afterLines owner text.lines with sources := config.sources ++ [⟨path, owner⟩] }) ∧
      config.catalog.records <+: outcome.state.catalog.records) ∧
    ∀ text : Text, '\r' ∉ text →
      config.readText text.withReturns path owner = config.readText text path owner := by
  refine ⟨fun first second ended complete => ?_, fun text => ⟨?_, ?_, ?_, ?_⟩, fun text plain => ?_⟩
  · obtain ⟨catalog, formatting, later⟩ := readText_append config owner path ended complete second
    refine ⟨?_, catalog, formatting, fun failure failed => ?_⟩
    · rw [later, Option.map_eq_none_iff]
    · -- whatever the second part fails for is a line of it
      obtain ⟨number, fault, -, rfl, -⟩ := readText_of_failure _ owner path failed
      rw [later, failed]
      exact ⟨number, fault.message, rfl, rfl⟩
  · rw [readText_value]
    exact Reading.ofText_sound_iff owner path text
  · intro failure failed
    obtain ⟨number, fault, first, rfl, applied⟩ := readText_of_failure config owner path failed
    refine ⟨number, fault, first, rfl, applied, ?_⟩
    rw [applied, afterLines_eq]
    exact List.append_nil _
  · exact readText_of_complete config owner path
  · exact records_prefix_readText config owner path text
  · rw [readText, readText, Text.lines_withReturns text plain]

/-- A part with a blank line and a value that ends in a blank, and one with a line at fault. -/
theorem readText_outcome_of_two_parts :
    let config : Configuration := { catalog := ⟨[⟨"/opt/man".toList, [], .mandatory⟩]⟩ }
    let path := Octets.encode "/etc/manpath.config".toList
    let first := "DEFINE pager less -s \n\nCATWIDTH 72\n".toList
    let second := "SECTION 1 8\nCATWIDTH wide\nNOCACHE".toList
    let reason := (DeclarationError.notInteger .fixed "wide".toList).message
    (first = [] ∨ first.getLast? = some '\n') ∧
      (config.readText first path .user).value.failure? = none ∧
      ((config.readText first path .user).value.state.readText second path .user).value.failure? =
        some (.lineNotUnderstood path 2 reason) ∧
      (config.readText (first ++ second) path .user).value.failure? =
        some (.lineNotUnderstood path 5 reason) ∧
      '\r' ∉ first ++ second ∧
      config.readText (Text.withReturns (first ++ second)) path .user =
        config.readText (first ++ second) path .user := by
  intro config path first second reason
  have ended : first = [] ∨ first.getLast? = some '\n' := by decide
  have complete : (config.readText first path .user).value.failure? = none := by decide
  have failed : ((config.readText first path .user).value.state.readText second path .user).value.failure? =
      some (.lineNotUnderstood path 2 reason) := by decide
  have plain : '\r' ∉ first ++ second := by decide
  obtain ⟨parts, -, returns⟩ := readText_outcome config .user path
  obtain ⟨-, -, -, later⟩ := parts first second ended complete
  obtain ⟨number, found, same, whole⟩ := later _ failed
  obtain ⟨-, rfl, rfl⟩ := Failure.lineNotUnderstood.inj same
  exact ⟨ended, complete, failed, whole, plain, returns _ plain⟩

end Configuration

end ManualPages
