import ManualPages.Declaration
import ManualPages.Proofs.Text.Words

/-! # A line is decided by its words

The reader of lines looks at beginnings of the trimmed line, takes the keyword off the front and
cuts the rest at its blanks.  `Reads` tells what it answers from the words alone, with two
exceptions that are parts of the line itself: the value of a definition, and the line that is not
understood.

* `Keyword.Names`, `Keyword.least` — the words for a keyword, and how many it needs after it.
* `Keyword.Takes`, `takes_ofKeyword`, `ofKeyword_of_takes` — what a keyword makes of the words after it.
* `Reads`, `parse_eq_iff` — what a line asks for.
* `parse_outcome` — the answer for a line, and for two lines with the same words.
-/

namespace ManualPages

namespace Keyword

/-! ## Keywords -/

/-- Whether a word stands for a keyword; sections have two words. -/
def Names (word : Text) (keyword : Keyword) : Prop :=
  word = keyword.name ∨ keyword = .sections ∧ word = pluralSections

theorem ofWord?_name (keyword : Keyword) : ofWord? keyword.name = some keyword := by
  cases keyword with
  | width which => cases which <;> rfl
  | mandatory | programMap | cacheMap | define | sections => rfl

theorem ofWord?_eq_some_iff {word : Text} {keyword : Keyword} :
    ofWord? word = some keyword ↔ Names word keyword := by
  constructor
  · intro found
    rw [ofWord?] at found
    split at found
    next plural => exact .inr ⟨(Option.some.inj found).symm, plural⟩
    next =>
      have named := List.find?_some found
      exact .inl (of_decide_eq_true named).symm
  · rintro (rfl | ⟨rfl, rfl⟩)
    · exact ofWord?_name keyword
    · rfl

theorem ofWord?_eq_none_iff {word : Text} :
    ofWord? word = none ↔ ∀ keyword, ¬ Names word keyword := by
  simp only [Option.eq_none_iff_forall_ne_some, ne_eq, ofWord?_eq_some_iff]

/-- A word for a keyword is no comment, no switch and not ignored. -/
theorem Names.plain {word : Text} {keyword : Keyword} (named : Names word keyword) :
    word.head? ≠ some '#' ∧ ¬ Declaration.switchOff <+: word ∧ word ≠ Declaration.ignoredWord := by
  obtain rfl | ⟨-, rfl⟩ := named
  · cases keyword with
    | width which => cases which <;> decide
    | mandatory | programMap | cacheMap | define | sections => decide
  · decide

/-- How many words a keyword needs after it. -/
def least : Keyword → Nat
  | .programMap => 2
  | _ => 1

/-- What a keyword makes of the words after it, in a line. -/
inductive Takes (line : Text) : Keyword → List Text → Except DeclarationError Declaration → Prop
  | mandatory {hierarchy : Text} {more : List Text} :
      Takes line .mandatory (hierarchy :: more) (.ok (.mandatory hierarchy))
  | programMap {programs hierarchy : Text} {more : List Text} :
      Takes line .programMap (programs :: hierarchy :: more) (.ok (.programMap programs hierarchy))
  | beside {hierarchy : Text} : Takes line .cacheMap [hierarchy] (.ok (.cacheMap hierarchy .beside))
  | legacy {hierarchy : Text} {more : List Text} :
      Takes line .cacheMap (hierarchy :: Declaration.legacyWord :: more)
        (.ok (.cacheMap hierarchy .legacy))
  | directory {hierarchy cache : Text} {more : List Text} (other : cache ≠ Declaration.legacyWord) :
      Takes line .cacheMap (hierarchy :: cache :: more)
        (.ok (.cacheMap hierarchy (.directory cache)))
  | define {name value : Text} {more : List Text} (rest : Text.StartsAtWord 2 line value) :
      Takes line .define (name :: more) (.ok (.define name value))
  | sections {name : Text} {more : List Text} :
      Takes line .sections (name :: more) (.ok (.sections (name :: more)))
  | width {which : Width} {word : Text} {more : List Text} {value : Int}
      (integer : Text.width? word = some value) :
      Takes line (.width which) (word :: more) (.ok (.width which value))
  | notInteger {which : Width} {word : Text} {more : List Text} (other : Text.width? word = none) :
      Takes line (.width which) (word :: more) (.error (.notInteger which word))
  | missing {keyword : Keyword} {words : List Text} (few : words.length < keyword.least) :
      Takes line keyword words (.error (.missing keyword))

end Keyword

namespace Declaration

variable {line rest : Text} {result : Except DeclarationError Declaration}

/-- What the words after a keyword are taken for, where they are those of the text after it. -/
theorem takes_ofKeyword (keyword : Keyword)
    (value : Text.StartsAtWord 2 line (Text.trimStart (Text.splitWord (Text.trimStart rest)).2)) :
    keyword.Takes line rest.words (ofKeyword keyword rest) := by
  unfold ofKeyword
  cases rest.words with
  | nil =>
    cases keyword with
    | programMap => exact .missing Nat.two_pos
    | mandatory | cacheMap | define | sections | width which => exact .missing Nat.one_pos
  | cons first more =>
    cases keyword with
    | mandatory => exact .mandatory
    | programMap =>
      cases more with
      | nil => exact .missing Nat.one_lt_two
      | cons second more => exact .programMap
    | cacheMap =>
      cases more with
      | nil => exact .beside
      | cons second more =>
        by_cases legacy : second = legacyWord
        · subst legacy
          exact .legacy
        · simp only [List.head?_cons, targetOf, if_neg legacy]
          exact .directory legacy
    | define => exact .define value
    | sections => exact .sections
    | width which =>
      cases read : Text.width? first with
      | some integer => simpa only [read] using .width read
      | none => simpa only [read] using .notInteger read

theorem ofKeyword_of_takes {keyword : Keyword} (takes : keyword.Takes line rest.words result)
    (value : Text.StartsAtWord 2 line (Text.trimStart (Text.splitWord (Text.trimStart rest)).2)) :
    ofKeyword keyword rest = result := by
  unfold ofKeyword
  generalize rest.words = words at takes
  cases takes with
  | mandatory | programMap | beside | legacy | sections => rfl
  | directory other => simp [targetOf, other]
  | define part => rw [part.unique value]
  | width integer => simp only [integer]
  | notInteger other => simp only [other]
  | missing few =>
    -- there is no word, or one where two are needed
    cases words with
    | nil => cases keyword <;> rfl
    | cons first more =>
      cases keyword with
      | programMap =>
        cases more with
        | nil => rfl
        | cons second more => exact absurd few (by simp [Keyword.least])
      | mandatory | cacheMap | define | sections | width which => simp [Keyword.least] at few

/-! ## Lines -/

/-- What a line asks for, by its words. -/
inductive Reads (line : Text) : List Text → Except DeclarationError (Option Declaration) → Prop
  | blank : Reads line [] (.ok none)
  | comment {word : Text} {more : List Text} (begins : word.head? = some '#') :
      Reads line (word :: more) (.ok none)
  | noCache {word : Text} {more : List Text} (begins : noCacheWord <+: word) :
      Reads line (word :: more) (.ok (some .noCache))
  | switch {word : Text} {more : List Text} (begins : switchOff <+: word)
      (other : ¬ noCacheWord <+: word) : Reads line (word :: more) (.ok none)
  | ignored {more : List Text} : Reads line (ignoredWord :: more) (.ok none)
  | declares {word : Text} {more : List Text} {keyword : Keyword} {declaration : Declaration}
      (named : Keyword.Names word keyword) (takes : keyword.Takes line more (.ok declaration)) :
      Reads line (word :: more) (.ok (some declaration))
  | fault {word : Text} {more : List Text} {keyword : Keyword} {error : DeclarationError}
      (named : Keyword.Names word keyword) (takes : keyword.Takes line more (.error error)) :
      Reads line (word :: more) (.error error)
  | unknown {word core : Text} {more : List Text} (noComment : word.head? ≠ some '#')
      (noSwitch : ¬ switchOff <+: word) (notIgnored : word ≠ ignoredWord)
      (noKeyword : ∀ keyword, ¬ Keyword.Names word keyword) (trimmed : Text.TrimmedTo line core) :
      Reads line (word :: more) (.error (.unknown core))

/-- The reader with its tests made on the first word, and the text behind that word. -/
def ofFirst (line word rest : Text) : Except DeclarationError (Option Declaration) :=
  if word.head? = some '#' then .ok none
  else if noCacheWord <+: word then .ok (some .noCache)
  else if switchOff <+: word then .ok none
  else if word = ignoredWord then .ok none
  else
    match Keyword.ofWord? word with
    | some keyword => (ofKeyword keyword rest).map some
    | none => .error (.unknown (Text.trimEnd (Text.trimStart line)))

/-- What the reader tests on the trimmed line it could test on the first word. -/
theorem parse_eq_ofFirst {c : Char} {trimmed : Text} (start : Text.trimStart line = c :: trimmed) :
    parse line =
      ofFirst line (Text.splitWord (c :: trimmed)).1 (Text.splitWord (c :: trimmed)).2 := by
  have inside : Text.isBlank c = false := Text.head?_trimStart (t := line) (by rw [start]; rfl)
  have head : (Text.splitWord (c :: trimmed)).1.head? = some c := by
    simp [Text.splitWord, inside]
  have noCache : noCacheWord <+: (Text.splitWord (c :: trimmed)).1 ↔ noCacheWord <+: c :: trimmed :=
    Text.prefix_splitWord_iff (Text.noBlank_of_all (by decide))
  have switch : switchOff <+: (Text.splitWord (c :: trimmed)).1 ↔ switchOff <+: c :: trimmed :=
    Text.prefix_splitWord_iff (Text.noBlank_of_all (by decide))
  simp only [parse, ofFirst, start, head]
  refine if_congr (by simp) rfl (if_congr ?_ rfl (if_congr ?_ rfl rfl))
  · rw [noCache, List.isPrefixOf_iff_prefix]
  · rw [switch, List.isPrefixOf_iff_prefix]

theorem reads_ofFirst {word : Text}
    (value : Text.StartsAtWord 2 line (Text.trimStart (Text.splitWord (Text.trimStart rest)).2)) :
    Reads line (word :: rest.words) (ofFirst line word rest) := by
  unfold ofFirst
  split
  next begins => exact .comment begins
  next noComment =>
  split
  next begins => exact .noCache begins
  next notNoCache =>
  split
  next begins => exact .switch begins notNoCache
  next noSwitch =>
  split
  next same =>
    subst same
    exact .ignored
  next notIgnored =>
  cases found : Keyword.ofWord? word with
  | none =>
    exact .unknown noComment noSwitch notIgnored (Keyword.ofWord?_eq_none_iff.mp found)
      (Text.trimmedTo_iff.mpr rfl)
  | some keyword =>
    have named := Keyword.ofWord?_eq_some_iff.mp found
    have taken := takes_ofKeyword keyword value
    show Reads line (word :: rest.words) ((ofKeyword keyword rest).map some)
    cases made : ofKeyword keyword rest with
    | ok declaration => exact .declares named (made ▸ taken)
    | error error => exact .fault named (made ▸ taken)

/-- A word that begins like a switch is no comment. -/
theorem head?_ne_of_prefix {start word : Text} (begins : start <+: word)
    (letter : start.head? = some 'N') : word.head? ≠ some '#' := by
  obtain ⟨more, rfl⟩ := begins
  rw [List.head?_append, letter]
  exact of_decide_eq_true rfl

theorem ofFirst_of_named {word : Text} {keyword : Keyword} (named : Keyword.Names word keyword) :
    ofFirst line word rest = (ofKeyword keyword rest).map some := by
  obtain ⟨noComment, noSwitch, notIgnored⟩ := named.plain
  have notNoCache : ¬ noCacheWord <+: word := fun begins =>
    noSwitch (List.IsPrefix.trans (by decide) begins)
  rw [ofFirst, if_neg noComment, if_neg notNoCache, if_neg noSwitch, if_neg notIgnored,
    Keyword.ofWord?_eq_some_iff.mpr named]

/-- A reader answers from its first word and the words behind it. -/
theorem ofFirst_of_reads {word : Text} {result : Except DeclarationError (Option Declaration)}
    (value : Text.StartsAtWord 2 line (Text.trimStart (Text.splitWord (Text.trimStart rest)).2))
    (reads : Reads line (word :: rest.words) result) : ofFirst line word rest = result := by
  generalize same : rest.words = words at reads
  cases reads with
  | comment begins => rw [ofFirst, if_pos begins]
  | noCache begins =>
    have noComment : word.head? ≠ some '#' := head?_ne_of_prefix begins rfl
    rw [ofFirst, if_neg noComment, if_pos begins]
  | switch begins other =>
    have noComment : word.head? ≠ some '#' := head?_ne_of_prefix begins rfl
    rw [ofFirst, if_neg noComment, if_neg other, if_pos begins]
  | ignored => rfl
  | declares named takes =>
    rw [ofFirst_of_named named, ofKeyword_of_takes (same ▸ takes) value]
    rfl
  | fault named takes =>
    rw [ofFirst_of_named named, ofKeyword_of_takes (same ▸ takes) value]
    rfl
  | unknown noComment noSwitch notIgnored noKeyword trimmed =>
    have notNoCache : ¬ noCacheWord <+: word := fun begins =>
      noSwitch (List.IsPrefix.trans (by decide) begins)
    rw [ofFirst, if_neg noComment, if_neg notNoCache, if_neg noSwitch, if_neg notIgnored,
      Keyword.ofWord?_eq_none_iff.mpr noKeyword, Text.trimmedTo_iff.mp trimmed]

theorem parse_eq_iff (line : Text) (result : Except DeclarationError (Option Declaration)) :
    parse line = result ↔ Reads line line.words result := by
  cases start : Text.trimStart line with
  | nil =>
    have noWord : line.words = [] := by rw [← Text.words_trimStart, start]; rfl
    have nothing : parse line = .ok none := by simp only [parse, start, true_or, if_true]
    rw [noWord, nothing]
    constructor
    · rintro rfl
      exact .blank
    · rintro ⟨⟩
      rfl
  | cons c trimmed =>
    have inside : Text.isBlank c = false := Text.head?_trimStart (t := line) (by rw [start]; rfl)
    have words := Text.words_eq_cons (t := c :: trimmed) rfl inside
    rw [← start, Text.words_trimStart] at words
    -- the value of a definition is what the reader has left behind two words
    have value := (Text.StartsAtWord.trimStart line).next.next
    rw [parse_eq_ofFirst start, words, start]
    rw [start] at value
    constructor
    · rintro rfl
      exact reads_ofFirst value
    · exact ofFirst_of_reads value

end Declaration

end ManualPages
