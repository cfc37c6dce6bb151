import ManualPages.Proofs.Configuration.Loading

/-! # Loading again after failures

A load that fails keeps what it has read so far, so the next one starts from there.  The state
after any number of failed loads is the readings of all of them on top of each other, and the
first load that succeeds ends where a new configuration would exactly if nothing of that shows.

* `Configuration.afterAttempts` — what a sequence of loads leaves.
* `AllFail` — every load of a sequence fails.
* `afterAttempts_eq` — the state after failed loads.
* `LeavesNothing` — nothing of the earlier readings shows after the last one.
* `load_after_failures_iff` — when a load after failures is as good as one from nothing.
* `load_after_failure_repeats` — a load after a failure that is not.
-/

namespace ManualPages

/-! ## Sequences of loads -/

def Attempt.declarations (attempt : Attempt) : List Declaration :=
  attempt.reading.entries.map (·.declaration)

/-- The configuration that a sequence of loads leaves. -/
def Configuration.afterAttempts (config : Configuration) (attempts : List Attempt) :
    Configuration :=
  attempts.foldl (fun config attempt => (attempt.run config).state) config

/-- Every load of a sequence fails, each in the state that the one before it leaves. -/
def AllFail : Configuration → List Attempt → Prop
  | _, [] => True
  | config, attempt :: rest =>
    (attempt.run config).failure?.isSome ∧ AllFail (attempt.run config).state rest

instance decidableAllFail : (config : Configuration) → (attempts : List Attempt) →
    Decidable (AllFail config attempts)
  | _, [] => inferInstanceAs (Decidable True)
  | config, attempt :: rest =>
    have := decidableAllFail (attempt.run config).state rest
    inferInstanceAs (Decidable (_ ∧ _))

/-- Nothing of what earlier loads have read shows after a last one: no file was read to its end,
    no record was added, no width was changed that the last one does not set itself, and
    formatted pages were not turned off unless the last one does so too. -/
structure LeavesNothing (earlier : List Attempt) (last : Attempt) : Prop where
  sources : ∀ attempt ∈ earlier, attempt.reading.sources = []
  records : ∀ attempt ∈ earlier, ∀ entry ∈ attempt.reading.entries, entry.records = []
  widths : ∀ which value, lastWidth? which (earlier.flatMap (·.declarations)) = some value →
    value = Formatting.widthOf {} which ∨ (lastWidth? which last.declarations).isSome
  switch : .noCache ∈ earlier.flatMap (·.declarations) → .noCache ∈ last.declarations

/-! ## The state after failed loads -/

/-- A failed load puts its reading on top and leaves the configuration open to another load. -/
theorem run_of_failure (attempt : Attempt) {config : Configuration}
    (unloaded : config.loaded = false) (failed : (attempt.run config).failure?.isSome) :
    (attempt.run config).state =
      config.after attempt.reading.entries attempt.reading.sources := by
  rw [run_of_unloaded attempt unloaded] at failed ⊢
  have ended : attempt.reading.failure?.isNone = false := by simpa using failed
  simp [ended, Configuration.after, unloaded]

/-- Failed loads leave their readings on top of each other. -/
theorem afterAttempts_eq (attempts : List Attempt) {config : Configuration}
    (unloaded : config.loaded = false) (failed : AllFail config attempts) :
    config.afterAttempts attempts =
      config.after (attempts.flatMap (·.reading.entries)) (attempts.flatMap (·.reading.sources)) := by
  induction attempts generalizing config with
  | nil => simp [Configuration.afterAttempts]
  | cons attempt rest ih =>
    obtain ⟨first, others⟩ := failed
    rw [run_of_failure attempt unloaded first] at others
    have left := ih (by simpa using unloaded) others
    simp only [Configuration.afterAttempts, List.foldl_cons] at left ⊢
    rw [run_of_failure attempt unloaded first, left, Configuration.after_after]
    simp

/-! ## When it shows -/

/-- Earlier declarations do not show in a formatting exactly if the later ones make up for each
    width and for the switch. -/
theorem Formatting.after_after_eq_iff (formatting : Formatting) (earlier later : List Declaration) :
    (formatting.after earlier).after later = formatting.after later ↔
      (∀ which value, lastWidth? which earlier = some value →
        value = formatting.widthOf which ∨ (lastWidth? which later).isSome) ∧
      (.noCache ∈ earlier → formatting.noCache = true ∨ .noCache ∈ later) := by
  constructor
  · intro same
    constructor
    · intro which value set
      have width := congrArg (Formatting.widthOf · which) same
      cases reset : lastWidth? which later with
      | some _ => simp
      | none => exact .inl (by simpa [Formatting.widthOf_after, set, reset] using width)
    · intro switched
      have switch := congrArg Formatting.noCache same
      simpa [Formatting.after, switched] using switch.symm
  · rintro ⟨widths, switch⟩
    apply Formatting.ext_widthOf
    · intro which
      simp only [Formatting.widthOf_after]
      cases reset : lastWidth? which later with
      | some _ => rfl
      | none =>
        cases set : lastWidth? which earlier with
        | none => rfl
        | some value =>
          obtain initial | again := widths which value set
          · simpa using initial
          · simp [reset] at again
    · by_cases switched : .noCache ∈ earlier
      · obtain off | again := switch switched
        · simp [Formatting.after, off]
        · simp [Formatting.after, again]
      · simp [Formatting.after, switched]

/-- Earlier entries and sources do not show in a configuration exactly if the entries add no
    record and do not show in the formatting, and there are no such sources. -/
theorem Configuration.after_after_eq_iff (config : Configuration) (earlier later : List Entry)
    (sources more : List Source) :
    (config.after earlier sources).after later more = config.after later more ↔
      (∀ entry ∈ earlier, entry.records = []) ∧
      (config.formatting.after (earlier.map (·.declaration))).after (later.map (·.declaration)) =
        config.formatting.after (later.map (·.declaration)) ∧
      sources = [] := by
  have absent {α : Type} (first second third : List α) :
      first ++ second ++ third = first ++ third ↔ second = [] := by
    simp [List.append_assoc]
  rw [← List.flatMap_eq_nil_iff]
  simp only [Configuration.after, Configuration.mk.injEq, Catalog.mk.injEq, absent, and_true]

/-- Marking two configurations alike makes no difference to whether they are equal. -/
theorem Configuration.mark_eq_iff {first second : Configuration} (flag : Bool)
    (alike : first.loaded = second.loaded) :
    ({ first with loaded := flag } : Configuration) = { second with loaded := flag } ↔
      first = second := by
  cases first
  cases second
  simp_all

/-- Nothing is left if what is read adds no record and does not show in the formatting, and no
    file is read to its end. -/
theorem leavesNothing_iff (earlier : List Attempt) (last : Attempt) :
    LeavesNothing earlier last ↔
      (∀ entry ∈ earlier.flatMap (·.reading.entries), entry.records = []) ∧
      (Formatting.after {} (earlier.flatMap (·.declarations))).after last.declarations =
        Formatting.after {} last.declarations ∧
      earlier.flatMap (·.reading.sources) = [] := by
  rw [Formatting.after_after_eq_iff, List.flatMap_eq_nil_iff]
  simp only [List.mem_flatMap]
  constructor
  · intro nothing
    refine ⟨?_, ⟨nothing.widths, fun switched => ?_⟩, nothing.sources⟩
    · rintro entry ⟨attempt, member, read⟩
      exact nothing.records attempt member entry read
    · exact .inr (nothing.switch (List.mem_flatMap.mpr switched))
  · rintro ⟨records, ⟨widths, switch⟩, sources⟩
    refine ⟨sources, ?_, widths, fun switched => ?_⟩
    · intro attempt member entry read
      exact records entry ⟨attempt, member, read⟩
    · obtain off | again := switch (List.mem_flatMap.mp switched)
      · contradiction
      · exact again

/-- After loads that have all failed, one that succeeds also succeeds on a new configuration,
    and it ends in the same state as there exactly if the failed ones leave nothing behind. -/
theorem load_after_failures_iff (earlier : List Attempt) (last : Attempt)
    (failed : AllFail .empty earlier)
    (succeeded : (last.run (Configuration.empty.afterAttempts earlier)).failure? = none) :
    (last.run .empty).failure? = none ∧
      ((last.run (Configuration.empty.afterAttempts earlier)).state = (last.run .empty).state ↔
        LeavesNothing earlier last) := by
  -- the failed loads amount to one reading on top of nothing, so both loads start from there
  have before := afterAttempts_eq earlier rfl failed
  have unloaded : (Configuration.empty.afterAttempts earlier).loaded = false := by rw [before]; rfl
  have declared : (earlier.flatMap (·.reading.entries)).map (·.declaration) =
      earlier.flatMap (·.declarations) := by
    simp [List.map_flatMap, Attempt.declarations]
  rw [run_of_unloaded last unloaded] at succeeded ⊢
  rw [run_of_unloaded last rfl]
  refine ⟨succeeded, ?_⟩
  calc
    _ ↔ (Configuration.empty.after (earlier.flatMap (·.reading.entries))
          (earlier.flatMap (·.reading.sources))).after last.reading.entries last.reading.sources =
        Configuration.empty.after last.reading.entries last.reading.sources := by
      rw [← before]
      exact Configuration.mark_eq_iff _ unloaded
    _ ↔ _ := Configuration.after_after_eq_iff ..
    _ ↔ LeavesNothing earlier last := by
      rw [declared, leavesNothing_iff]
      rfl

/-! ## A load that repeats records -/

/-- A load before the system-wide file is there, which fails after the per-user file. -/
def tooEarly : Attempt := .ofTexts "MANDATORY_MANPATH /opt/man\n" none

/-- The same load with an empty system-wide file. -/
def inTime : Attempt := .ofTexts "MANDATORY_MANPATH /opt/man\n" (some "")

/-- A load of a per-user file that sets a width and then has a line at fault. -/
def faulty : Attempt := .ofTexts "CATWIDTH 72\nMANDATORY /opt/man\n" (some "")

/-- The records and sources of a load that failed are there twice after the next one. -/
theorem load_after_failure_repeats :
    AllFail .empty [tooEarly] ∧
      (inTime.run (Configuration.empty.afterAttempts [tooEarly])).failure? = none ∧
      (inTime.run (Configuration.empty.afterAttempts [tooEarly])).state.catalog.records =
        [⟨"/opt/man".toList, [], .mandatory⟩, ⟨"/opt/man".toList, [], .mandatory⟩] ∧
      (inTime.run (Configuration.empty.afterAttempts [tooEarly])).state.sources =
        [⟨Octets.encode "/home/.manpath".toList, .user⟩,
          ⟨Octets.encode "/home/.manpath".toList, .user⟩,
          ⟨Octets.encode "/manpath.config".toList, .system⟩] ∧
      (inTime.run .empty).state.catalog.records = [⟨"/opt/man".toList, [], .mandatory⟩] ∧
      (inTime.run .empty).state.sources =
        [⟨Octets.encode "/home/.manpath".toList, .user⟩,
          ⟨Octets.encode "/manpath.config".toList, .system⟩] := by
  decide

/-- Two failed loads, one for a missing file and one for a line, and one that succeeds. -/
theorem load_after_two_failures_iff :
    AllFail .empty [faulty, tooEarly] ∧
      (inTime.run (Configuration.empty.afterAttempts [faulty, tooEarly])).failure? = none ∧
      (inTime.run .empty).failure? = none ∧
      ((inTime.run (Configuration.empty.afterAttempts [faulty, tooEarly])).state =
          (inTime.run .empty).state ↔
        LeavesNothing [faulty, tooEarly] inTime) :=
  ⟨by decide, by decide, load_after_failures_iff [faulty, tooEarly] inTime (by decide) (by decide)⟩

end ManualPages
