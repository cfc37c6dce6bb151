import Mathlib.Data.List.TakeWhile
import ManualPages.Locale

/-! # The parts of the name of a locale

A name that begins with its language is read without loss: the language and the other parts with
their marks, put one behind the other, are the name.  Each part ends where a mark of a later one
comes, so a part may have the marks of earlier ones in it, and a name is written from one sequence of
parts only.  What carries the proofs is how the rest behind a part begins (`BeginsWith`): with a
mark that can still come, or not at all.

* `BeginsWith`, `upTo_eq` — texts that go on with a stop, and where a part before them ends.
* `Written`, `written_part`, `part_of_written` — a part with its mark, read and written.
* `WellFormed`, `Spells` — parts that no mark cuts short, and the names that are written from them.
* `spells_parse`, `parse_of_spells`, `spells_render` — reading a name, and writing its parts.
* `parse_eq_iff_spells` — what is read of any name.
-/

namespace ManualPages.Locale

variable {mark : Char} {stops : List Char} {t rest : Text}

/-! ## Stops -/

/-- A text that is empty or begins with one of `stops`. -/
def BeginsWith (stops : List Char) (t : Text) : Prop := ∀ c, t.head? = some c → c ∈ stops

theorem beginsWith_nil : BeginsWith stops [] := by
  intro c first
  contradiction

theorem beginsWith_cons {c : Char} : BeginsWith stops (c :: rest) ↔ c ∈ stops := by
  simp [BeginsWith]

theorem eq_nil_of_beginsWith_nil (begins : BeginsWith [] t) : t = [] := by
  cases t with
  | nil => rfl
  | cons c rest => exact absurd (beginsWith_cons.mp begins) List.not_mem_nil

theorem upTo_append (stops : List Char) (t : Text) : (upTo stops t).1 ++ (upTo stops t).2 = t :=
  List.takeWhile_append_dropWhile

theorem notMem_upTo {c : Char} (stop : c ∈ stops) : c ∉ (upTo stops t).1 := fun inside => by
  simpa [stop] using List.mem_takeWhile_imp inside

theorem beginsWith_upTo : BeginsWith stops (upTo stops t).2 := by
  intro c first
  have other := List.head?_dropWhile_not (! stops.contains ·) t
  rw [← show (upTo stops t).2 = t.dropWhile (! stops.contains ·) from rfl, first] at other
  simpa using other

/-- A text without stops that goes on with one ends there. -/
theorem upTo_eq (free : ∀ c ∈ stops, c ∉ t) (ends : BeginsWith stops rest) :
    upTo stops (t ++ rest) = (t, rest) := by
  have passed : ∀ c ∈ t, (! stops.contains c) = true := by
    intro c inside
    simpa using fun stop => free c stop inside
  rw [upTo, List.takeWhile_append_of_pos passed, List.dropWhile_append_of_pos passed]
  cases rest with
  | nil => simp
  | cons c rest => simp [beginsWith_cons.mp ends]

/-! ## Parts with their marks -/

/-- How a part is written: with its mark before it, or not at all.  An empty part may have its mark. -/
inductive Written (mark : Char) : Text → Text → Prop
  | absent : Written mark [] []
  | present (part : Text) : Written mark part (mark :: part)

theorem written_marked (mark : Char) (t : Text) : Written mark t (marked mark t) := by
  cases t with
  | nil => exact .absent
  | cons c rest => exact .present (c :: rest)

theorem Written.beginsWith {w : Text} (written : Written mark t w) (ends : BeginsWith stops rest) :
    BeginsWith (mark :: stops) (w ++ rest) := by
  cases written with
  | absent => exact fun c first => List.mem_cons_of_mem mark (ends c first)
  | present => exact beginsWith_cons.mpr List.mem_cons_self

/-- What is read of a text that begins with a mark or a stop: the part as it is written there, up to
    the first stop. -/
theorem written_part (begins : BeginsWith (mark :: stops) t) :
    ∃ w, t = w ++ (part mark stops t).2 ∧ Written mark (part mark stops t).1 w ∧
      (∀ c ∈ stops, c ∉ (part mark stops t).1) ∧ BeginsWith stops (part mark stops t).2 := by
  cases t with
  | nil => exact ⟨[], rfl, .absent, fun _ _ => List.not_mem_nil, beginsWith_nil⟩
  | cons c rest =>
    rw [part]
    split
    next same =>
      subst same
      refine ⟨c :: (upTo stops rest).1, ?_, .present _, fun _ stop => notMem_upTo stop,
        beginsWith_upTo⟩
      rw [List.cons_append, upTo_append]
    next other =>
      have stop : c ∈ stops := (List.mem_cons.mp (beginsWith_cons.mp begins)).resolve_left other
      exact ⟨[], rfl, .absent, fun _ _ => List.not_mem_nil, beginsWith_cons.mpr stop⟩

/-- A part that is written before a stop is read as it was, and nothing else is taken. -/
theorem part_of_written {w : Text} (written : Written mark t w) (later : mark ∉ stops)
    (free : ∀ c ∈ stops, c ∉ t) (ends : BeginsWith stops rest) :
    part mark stops (w ++ rest) = (t, rest) := by
  cases written with
  | absent =>
    cases rest with
    | nil => rfl
    | cons c rest =>
      have other : c ≠ mark := by
        rintro rfl
        exact later (beginsWith_cons.mp ends)
      rw [List.nil_append, part, if_neg other]
  | present => rw [List.cons_append, part, if_pos rfl, upTo_eq free ends]

/-! ## Names -/

/-- There is a language, and no part has a mark at which it would end. -/
structure WellFormed (locale : Locale) : Prop where
  named : locale.language ≠ []
  language : ∀ c ∈ ['_', '.', '@'], c ∉ locale.language
  territory : ∀ c ∈ ['.', '@'], c ∉ locale.territory
  codeset : '@' ∉ locale.codeset

/-- The name is the language and behind it the other parts, each with its mark or not at all. -/
def Spells (locale : Locale) (name : Text) : Prop :=
  locale.WellFormed ∧ ∃ territory codeset modifier,
    name = locale.language ++ territory ++ codeset ++ modifier ∧
    Written '_' locale.territory territory ∧ Written '.' locale.codeset codeset ∧
    Written '@' locale.modifier modifier

theorem spells_render {locale : Locale} (wellFormed : locale.WellFormed) :
    Spells locale locale.render :=
  ⟨wellFormed, _, _, _, rfl, written_marked _ _, written_marked _ _, written_marked _ _⟩

variable {name : Text}

theorem language_isEmpty_iff :
    (upTo marks name).1.isEmpty ↔ name = [] ∨ ∃ mark ∈ marks, name.head? = some mark := by
  cases name with
  | nil => simp [upTo]
  | cons c rest => by_cases isMark : c ∈ marks <;> simp [upTo, isMark]

/-- A name that is empty or begins with a mark is kept whole. -/
theorem parse_alias (noLanguage : name = [] ∨ ∃ mark ∈ marks, name.head? = some mark) :
    parse name = { language := name } :=
  if_pos (language_isEmpty_iff.mpr noLanguage)

/-- Every other name is read part by part. -/
theorem parse_of_language (language : ¬ (upTo marks name).1.isEmpty) :
    parse name =
      let territory := part '_' ['.', '@'] (upTo marks name).2
      let codeset := part '.' ['@'] territory.2
      ⟨(upTo marks name).1, territory.1, codeset.1, (part '@' [] codeset.2).1⟩ :=
  if_neg language

theorem spells_parse (named : name ≠ []) (noMark : ∀ mark ∈ marks, name.head? ≠ some mark) :
    Spells (parse name) name := by
  have hasLanguage : ¬ (upTo marks name).1.isEmpty := by
    rw [language_isEmpty_iff]
    rintro (empty | ⟨mark, isMark, first⟩)
    · exact named empty
    · exact noMark mark isMark first
  -- each part hands on a rest that begins with a mark of the parts after it
  have begins : BeginsWith ['_', '.', '@'] (upTo marks name).2 := beginsWith_upTo
  obtain ⟨territory, atTerritory, hasTerritory, inTerritory, begins⟩ := written_part begins
  obtain ⟨codeset, atCodeset, hasCodeset, inCodeset, begins⟩ := written_part begins
  obtain ⟨modifier, atModifier, hasModifier, -, begins⟩ := written_part begins
  rw [eq_nil_of_beginsWith_nil begins, List.append_nil] at atModifier
  rw [parse_of_language hasLanguage]
  refine ⟨⟨?_, ?_, inTerritory, ?_⟩, territory, codeset, modifier, ?_, hasTerritory, hasCodeset,
    hasModifier⟩
  · simpa using hasLanguage
  · exact fun _ stop => notMem_upTo stop
  · exact inCodeset '@' (by simp)
  · rw [List.append_assoc, List.append_assoc, ← atModifier, ← atCodeset, ← atTerritory]
    exact (upTo_append marks name).symm

/-- The parts that a name is written from are those that are read. -/
theorem parse_of_spells {locale : Locale} (spells : Spells locale name) : parse name = locale := by
  obtain ⟨wellFormed, territory, codeset, modifier, rfl, hasTerritory, hasCodeset, hasModifier⟩ :=
    spells
  have atModifier : BeginsWith ['@'] modifier := by
    simpa using hasModifier.beginsWith beginsWith_nil
  have atCodeset := hasCodeset.beginsWith atModifier
  have atTerritory := hasTerritory.beginsWith atCodeset
  have language : upTo marks (locale.language ++ (territory ++ (codeset ++ modifier))) =
      (locale.language, territory ++ (codeset ++ modifier)) :=
    upTo_eq wellFormed.language atTerritory
  have readTerritory := part_of_written hasTerritory (by decide) wellFormed.territory atCodeset
  have readCodeset := part_of_written hasCodeset (by decide)
    (by simpa using wellFormed.codeset) atModifier
  have readModifier : part '@' [] modifier = (locale.modifier, []) := by
    simpa using part_of_written hasModifier List.not_mem_nil (by simp) beginsWith_nil
  have named : ¬ locale.language.isEmpty := by simpa using wellFormed.named
  rw [List.append_assoc, List.append_assoc, parse_of_language (by rw [language]; exact named)]
  simp only [language, readTerritory, readCodeset, readModifier]

/-- A name that begins with a language has the parts that it is written from, and no others: nothing
    of it is lost.  Any other name is kept whole.  Parts that no mark cuts short are read again as
    they were from the name that is written from them. -/
theorem parse_eq_iff_spells (name : Text) :
    (name ≠ [] → (∀ mark ∈ marks, name.head? ≠ some mark) →
      ∀ locale, parse name = locale ↔ Spells locale name) ∧
    (name = [] ∨ (∃ mark ∈ marks, name.head? = some mark) → parse name = { language := name }) ∧
    ∀ locale : Locale, locale.WellFormed → parse locale.render = locale := by
  refine ⟨fun named noMark locale => ?_, parse_alias, fun locale wellFormed => ?_⟩
  · constructor
    · rintro rfl
      exact spells_parse named noMark
    · exact parse_of_spells
  · exact parse_of_spells (spells_render wellFormed)

/-- Marks of earlier parts belong to the part that they are in. -/
example : parse "de.x_y.z@a.b@c".toList =
    ⟨"de".toList, [], "x_y.z".toList, "a.b@c".toList⟩ := by
  decide

end ManualPages.Locale
