import ManualPages.Proofs.Configuration.LineByLine
import ManualPages.Proofs.Declaration.ByWords
import ManualPages.Proofs.Text.Numerals

/-! # Lines that set a width

A line with the keyword of a width and one word sets that width to the number that the word denotes,
if it has 32 bits with sign.  Any other word is a fault of the line, and a line at fault changes
nothing: there is no value that is made to fit.

* `readText_declaration`, `readText_fault` — texts of one line.
* `lines_append_ending` — a line with its line ending.
* `widthLine`, `parse_widthLine_of_denotes`, `parse_widthLine_of_other` — what a line with the keyword
  of a width asks for.
* `readText_widthLine_outcome` — what reading such a line comes to.
-/

namespace ManualPages

/-! ## Texts of one line -/

namespace Text

/-- A line feed that ends a line, with a carriage return or without one, or nothing at the end of
    the text. -/
inductive LineEnding : Text → Prop
  | none : LineEnding []
  | feed : LineEnding ['\n']
  | returnFeed : LineEnding ['\r', '\n']

theorem lines_append_ending {line ending : Text} (unbroken : '\n' ∉ line) (plain : '\r' ∉ line)
    (written : line ≠ []) (ends : LineEnding ending) : lines (line ++ ending) = [line] := by
  cases ends with
  | none => rw [List.append_nil, lines_of_unbroken unbroken written]
  | feed =>
    rw [lines_cons unbroken, dropReturn_of_notMem plain]
    rfl
  | returnFeed =>
    have broken : '\n' ∉ line ++ ['\r'] := by simpa using unbroken
    rw [← List.singleton_append, ← List.append_assoc, lines_cons broken, dropReturn_return]
    rfl

end Text

namespace Configuration

section OneLine

variable (config : Configuration) (owner : Owner) (path : Octets) {text line : Text}

theorem readText_declaration {declaration : Declaration} (only : text.lines = [line])
    (declares : Declaration.parse line = .ok (some declaration)) :
    (config.readText text path owner).value =
      ⟨config.after [⟨owner, declaration⟩] [⟨path, owner⟩], none⟩ := by
  simp [readText_value, Reading.ofText, only, firstFault?, declares, understood_of_ok declares,
    declarationsOf, Declaration.ofLine?]

theorem readText_fault {fault : DeclarationError} (only : text.lines = [line])
    (faulty : Declaration.parse line = .error fault) :
    (config.readText text path owner).value =
      ⟨config, some (.lineNotUnderstood path 1 fault.message)⟩ := by
  simp [readText_value, Reading.ofText, only, firstFault?, faulty, not_understood_of_error faulty,
    declarationsOf]

end OneLine

end Configuration

/-! ## Lines with the keyword of a width -/

/-- The keyword of a width, a space and the word. -/
def widthLine (which : Width) (word : Text) : Text := (Keyword.width which).name ++ ' ' :: word

section WidthLine

variable {which : Width} {word : Text}

theorem Keyword.isWord_name (keyword : Keyword) : Text.IsWord keyword.name := by
  cases keyword with
  | width which => cases which <;> exact ⟨by decide, Text.noBlank_of_all (by decide)⟩
  | mandatory | programMap | cacheMap | define | sections =>
    exact ⟨by decide, Text.noBlank_of_all (by decide)⟩

theorem words_widthLine (isWord : Text.IsWord word) :
    (widthLine which word).words = [(Keyword.width which).name, word] := by
  rw [widthLine, Text.words_append_blank (Keyword.isWord_name _) (by decide), Text.words_of_isWord isWord]

theorem lines_widthLine {ending : Text} (isWord : Text.IsWord word) (ends : Text.LineEnding ending) :
    (widthLine which word ++ ending).lines = [widthLine which word] := by
  -- the only blank in the line is the space between its words
  have absent {c : Char} (blank : Text.isBlank c = true) (other : c ≠ ' ') :
      c ∉ widthLine which word := by
    rw [widthLine, List.mem_append, List.mem_cons, not_or, not_or]
    have outside {t : Text} (letters : Text.IsWord t) : c ∉ t := by
      intro member
      simp [letters.noBlank c member] at blank
    exact ⟨outside (Keyword.isWord_name _), other, outside isWord⟩
  have written : widthLine which word ≠ [] :=
    List.append_ne_nil_of_left_ne_nil (Keyword.isWord_name _).nonempty _
  exact Text.lines_append_ending (absent (by decide) (by decide)) (absent (by decide) (by decide))
    written ends

theorem parse_widthLine_of_denotes {value : Int} (isWord : Text.IsWord word)
    (denotes : Text.Denotes word value) (range : -2 ^ 31 ≤ value ∧ value ≤ 2 ^ 31 - 1) :
    Declaration.parse (widthLine which word) = .ok (some (.width which value)) := by
  rw [Declaration.parse_eq_iff, words_widthLine isWord]
  exact .declares (.inl rfl) (.width (Text.width?_eq_some_iff.mpr ⟨denotes, range⟩))

theorem parse_widthLine_of_other (isWord : Text.IsWord word)
    (other : ¬ ∃ value, Text.Denotes word value ∧ -2 ^ 31 ≤ value ∧ value ≤ 2 ^ 31 - 1) :
    Declaration.parse (widthLine which word) = .error (.notInteger which word) := by
  have noWidth : Text.width? word = none := by
    rw [Option.eq_none_iff_forall_ne_some]
    exact fun value read => other ⟨value, Text.width?_eq_some_iff.mp read⟩
  rw [Declaration.parse_eq_iff, words_widthLine isWord]
  exact .fault (.inl rfl) (.notInteger noWidth)

end WidthLine

/-- A line with the keyword of a width is understood exactly if its word denotes a number of 32 bits
    with sign.  Then it sets that width to that number and leaves all records and all other settings,
    and the file is one of those read; otherwise it is at fault, and the configuration stays as it
    was. -/
theorem readText_widthLine_outcome (config : Configuration) (owner : Owner) (path : Octets)
    (which : Width) (word ending : Text) (isWord : Text.IsWord word)
    (ends : Text.LineEnding ending) :
    let line := widthLine which word
    let outcome := (config.readText (line ++ ending) path owner).value
    (outcome.failure? = none ↔
      ∃ value, Text.Denotes word value ∧ -2 ^ 31 ≤ value ∧ value ≤ 2 ^ 31 - 1) ∧
    (∀ value, Text.Denotes word value → -2 ^ 31 ≤ value ∧ value ≤ 2 ^ 31 - 1 →
      Declaration.parse line = .ok (some (.width which value)) ∧
      outcome.state.catalog = config.catalog ∧ outcome.state.loaded = config.loaded ∧
      outcome.state.sources = config.sources ++ [⟨path, owner⟩] ∧
      outcome.state.formatting.noCache = config.formatting.noCache ∧
      ∀ other, outcome.state.formatting.widthOf other =
        if other = which then value else config.formatting.widthOf other) ∧
    (outcome.failure? ≠ none →
      Declaration.parse line = .error (.notInteger which word) ∧
      outcome = ⟨config,
        some (.lineNotUnderstood path 1 (DeclarationError.notInteger which word).message)⟩) := by
  intro line outcome
  have only : (line ++ ending).lines = [line] := lines_widthLine isWord ends
  have accepted (value : Int) (denotes : Text.Denotes word value)
      (range : -2 ^ 31 ≤ value ∧ value ≤ 2 ^ 31 - 1) :
      Declaration.parse line = .ok (some (.width which value)) ∧
        outcome = ⟨config.after [⟨owner, .width which value⟩] [⟨path, owner⟩], none⟩ := by
    have parsed : Declaration.parse line = _ := parse_widthLine_of_denotes isWord denotes range
    exact ⟨parsed, config.readText_declaration owner path only parsed⟩
  have rejected (other : ¬ ∃ value, Text.Denotes word value ∧ -2 ^ 31 ≤ value ∧ value ≤ 2 ^ 31 - 1) :
      Declaration.parse line = .error (.notInteger which word) ∧ outcome = ⟨config,
        some (.lineNotUnderstood path 1 (DeclarationError.notInteger which word).message)⟩ := by
    have parsed : Declaration.parse line = _ := parse_widthLine_of_other isWord other
    exact ⟨parsed, config.readText_fault owner path only parsed⟩
  refine ⟨⟨fun understood => ?_, ?_⟩, fun value denotes range => ?_, fun failed => ?_⟩
  · by_contra other
    rw [(rejected other).2] at understood
    contradiction
  · rintro ⟨value, denotes, range⟩
    rw [(accepted value denotes range).2]
  · obtain ⟨parsed, same⟩ := accepted value denotes range
    rw [same]
    refine ⟨parsed, ?_, rfl, rfl, ?_, fun other => ?_⟩
    · simp [Configuration.after, Entry.records]
    · simp [Configuration.after, Formatting.after]
    · rw [Configuration.after, Formatting.widthOf_after]
      obtain rfl | differs := eq_or_ne other which
      · simp [lastWidth?, Declaration.width?]
      · simp [lastWidth?, Declaration.width?, differs, differs.symm]
  · apply rejected
    rintro ⟨value, denotes, range⟩
    rw [(accepted value denotes range).2] at failed
    contradiction

/-- The least number of 32 bits, with zeros before it, and the number below it. -/
theorem readText_widthLine_of_least :
    let config : Configuration := { catalog := ⟨[⟨"/opt/man".toList, [], .mandatory⟩]⟩ }
    let path := Octets.encode "/etc/manpath.config".toList
    let least := (config.readText "MAXCATWIDTH -0002147483648\r\n".toList path .system).value
    let below := (config.readText "CATWIDTH -2147483649".toList path .user).value
    Text.Denotes "-0002147483648".toList (-2147483648) ∧
      least.failure? = none ∧ least.state.catalog = config.catalog ∧
      least.state.formatting.widthOf .greatest = -2147483648 ∧
      least.state.formatting.widthOf .least = 80 ∧
      below = ⟨config, some (.lineNotUnderstood path 1
        "CATWIDTH expects an integer, got \x60-2147483649'".toList)⟩ := by
  intro config path least below
  have denotes : Text.Denotes "-0002147483648".toList (-2147483648) :=
    Text.integer?_eq_some_iff.mp (by decide)
  obtain ⟨understood, set, -⟩ := readText_widthLine_outcome config .system path .greatest
    "-0002147483648".toList _ ⟨by decide, Text.noBlank_of_all (by decide)⟩ .returnFeed
  obtain ⟨-, catalog, -, -, -, widths⟩ := set _ denotes (by decide)
  obtain ⟨-, -, faulty⟩ := readText_widthLine_outcome config .user path .fixed
    "-2147483649".toList _ ⟨by decide, Text.noBlank_of_all (by decide)⟩ .none
  obtain ⟨-, same⟩ := faulty (by decide)
  exact ⟨denotes, understood.mpr ⟨_, denotes, by decide⟩, catalog, widths .greatest,
    widths .least, same⟩

end ManualPages
