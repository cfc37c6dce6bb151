import Mathlib.Data.List.Induction
import Mathlib.Data.List.TakeWhile
import ManualPages.Proofs.Text.Pieces

/-! # Words one after the other

`words` cuts a whole text at its blanks; a reader takes a word off the front and goes on behind it.
`words_eq_cons` says that both find the same words.  What a reader has left is told by the words in
it (`StartsAtWord`), and a text has only one such part: a longer one would have more characters that
are not blank.

* `words_of_isWord`, `words_append_blank` — a word alone, and one before a blank.
* `words_trimStart`, `words_eq_cons` — the words behind the first one.
* `prefix_splitWord_iff` — beginnings of a text and of its first word.
* `flatten_words` — the words are all that is not blank.
* `StartsAtWord`, `StartsAtWord.unique` — the part of a text from one of its words on.
* `TrimmedTo`, `trimmedTo_iff` — a text without the blanks at both ends.
-/

namespace ManualPages.Text

/-! ## The first word -/

theorem words_cons_of_blank {c : Char} (blank : isBlank c = true) (t : Text) :
    words (c :: t) = words t := by
  simp [words, List.splitOnP_cons_eq_if_modifyHead, blank]

theorem trimStart_cons_of_blank {c : Char} (blank : isBlank c = true) (t : Text) :
    trimStart (c :: t) = trimStart t :=
  List.dropWhile_cons_of_pos blank

theorem trimStart_of_head {t : Text} (start : ∀ c, t.head? = some c → isBlank c = false) :
    trimStart t = t := by
  cases t with
  | nil => rfl
  | cons c rest =>
    apply List.dropWhile_cons_of_neg
    simp [start c rfl]

@[simp] theorem words_trimStart (t : Text) : (trimStart t).words = t.words := by
  induction t with
  | nil => rfl
  | cons c rest ih =>
    cases blank : isBlank c with
    | true => rw [trimStart_cons_of_blank blank, words_cons_of_blank blank, ih]
    | false =>
      rw [trimStart_of_head]
      rintro _ ⟨⟩
      exact blank

theorem splitWord_append (t : Text) : (splitWord t).1 ++ (splitWord t).2 = t :=
  List.takeWhile_append_dropWhile

theorem words_append_blank {word : Text} (isWord : IsWord word) {blank : Char}
    (cut : isBlank blank = true) (rest : Text) : words (word ++ blank :: rest) = word :: words rest := by
  rw [words, List.splitOnP_append_cons _ _ cut, List.splitOnP_eq_singleton isWord.noBlank]
  simp [words, isWord.nonempty]

theorem words_of_isWord {word : Text} (isWord : IsWord word) : words word = [word] := by
  rw [words, List.splitOnP_eq_singleton isWord.noBlank]
  simp [isWord.nonempty]

/-- A text that does not begin with a blank has its first word in front of the other words. -/
theorem words_eq_cons {t : Text} {c : Char} (begins : t.head? = some c) (inside : isBlank c = false) :
    t.words = (splitWord t).1 :: (splitWord t).2.words := by
  have letters : ∀ d ∈ (splitWord t).1, isBlank d = false := fun d member => by
    simpa using List.mem_takeWhile_imp member
  have written : (splitWord t).1 ≠ [] := by
    obtain ⟨rest, rfl⟩ := List.head?_eq_some_iff.mp begins
    simp [splitWord, inside]
  -- what follows the word is nothing, or it begins with the blank where the text is cut
  cases behind : (splitWord t).2 with
  | nil =>
    have alone : t = (splitWord t).1 := by
      have whole := splitWord_append t
      rw [behind, List.append_nil] at whole
      exact whole.symm
    rw [← alone, words_of_isWord (alone ▸ ⟨written, letters⟩)]
    rfl
  | cons blank rest =>
    have cut : isBlank blank = true := by
      have first := List.head?_dropWhile_not (! isBlank ·) t
      rw [show t.dropWhile (! isBlank ·) = blank :: rest from behind] at first
      simpa using first
    rw [words_cons_of_blank cut]
    conv_lhs => rw [← splitWord_append t, behind]
    exact words_append_blank ⟨written, letters⟩ cut rest

theorem prefix_splitWord_iff {start t : Text} (letters : ∀ c ∈ start, isBlank c = false) :
    start <+: (splitWord t).1 ↔ start <+: t := by
  constructor
  · exact fun begins => begins.trans (List.takeWhile_prefix _)
  · rintro ⟨rest, rfl⟩
    rw [splitWord, List.takeWhile_append_of_pos fun c member => by simp [letters c member]]
    exact List.prefix_append start _

/-! ## Parts of a text -/

/-- The words of a text have all of its characters that are not blank, in order. -/
theorem flatten_words (t : Text) : t.words.flatten = t.filter (! isBlank ·) := by
  rw [words, List.flatten_filter_not_isEmpty, flatten_splitOnP]

/-- The part of a text from the start of its word number `n` on, counted from zero, up to the end
    with all its blanks.  It is empty where there is no such word. -/
structure StartsAtWord (n : Nat) (t part : Text) : Prop where
  behind : part <:+ t
  words : part.words = t.words.drop n
  start : ∀ c, part.head? = some c → isBlank c = false

namespace StartsAtWord

theorem trimStart (t : Text) : StartsAtWord 0 t (trimStart t) where
  behind := List.dropWhile_suffix isBlank
  words := by rw [words_trimStart, List.drop_zero]
  start _ := head?_trimStart

/-- Behind the word that a part starts with, the part from the next word on is found. -/
theorem next {n : Nat} {t part : Text} (here : StartsAtWord n t part) :
    StartsAtWord (n + 1) t (Text.trimStart (splitWord part).2) where
  behind := (List.dropWhile_suffix _).trans ((List.dropWhile_suffix _).trans here.behind)
  words := by
    rw [words_trimStart, ← List.drop_drop, ← here.words]
    cases first : part.head? with
    | none =>
      obtain rfl := List.head?_eq_none_iff.mp first
      rfl
    | some c => rw [words_eq_cons first (here.start c first), List.drop_one, List.tail_cons]
  start _ := head?_trimStart

/-- Of two parts the longer one has no more characters that are not blank, but begins with one. -/
theorem eq_of_suffix {n : Nat} {t longer shorter : Text} (one : StartsAtWord n t longer)
    (other : StartsAtWord n t shorter) (inside : shorter <:+ longer) : longer = shorter := by
  obtain ⟨more, rfl⟩ := inside
  have same : (more ++ shorter).filter (! isBlank ·) = shorter.filter (! isBlank ·) := by
    rw [← flatten_words, ← flatten_words, one.words, other.words]
  rw [List.filter_append, List.append_left_eq_self] at same
  cases more with
  | nil => rfl
  | cons c rest =>
    have letter : isBlank c = false := one.start c rfl
    simp [letter] at same

theorem unique {n : Nat} {t one other : Text} (first : StartsAtWord n t one)
    (second : StartsAtWord n t other) : one = other := by
  cases List.suffix_or_suffix_of_suffix first.behind second.behind with
  | inl inside => exact (eq_of_suffix second first inside).symm
  | inr inside => exact eq_of_suffix first second inside

end StartsAtWord

/-! ## Blanks at both ends -/

/-- A text is `core` with blanks before and behind it, and `core` has no blank at either end. -/
structure TrimmedTo (t core : Text) : Prop where
  cut : ∃ before behind, t = before ++ core ++ behind ∧ ∀ c ∈ before ++ behind, isBlank c = true
  first : ∀ c, core.head? = some c → isBlank c = false
  last : ∀ c, core.getLast? = some c → isBlank c = false

theorem trimEnd_of_blank {t : Text} (blank : ∀ c ∈ t, isBlank c = true) : trimEnd t = [] := by
  induction t with
  | nil => rfl
  | cons c rest ih =>
    obtain ⟨first, others⟩ := List.forall_mem_cons.mp blank
    simp [trimEnd, ih others, first]

theorem trimEnd_append_of_blank {behind : Text} (blank : ∀ c ∈ behind, isBlank c = true) (t : Text) :
    trimEnd (t ++ behind) = trimEnd t := by
  induction t with
  | nil => exact trimEnd_of_blank blank
  | cons c rest ih => rw [List.cons_append, trimEnd, ih, trimEnd]

/-- Only blanks are taken off the end, and all of them. -/
theorem exists_trimEnd_append (t : Text) :
    ∃ behind, t = trimEnd t ++ behind ∧ (∀ c ∈ behind, isBlank c = true) ∧
      ∀ c, (trimEnd t).getLast? = some c → isBlank c = false := by
  fun_induction trimEnd t with
  | case1 => exact ⟨[], rfl, by simp, by simp⟩
  | case2 c rest nothing blank ih =>
    obtain ⟨behind, same, blanks, -⟩ := ih
    rw [nothing, List.nil_append] at same
    refine ⟨c :: rest, rfl, ?_, by simp⟩
    rw [List.forall_mem_cons, same]
    exact ⟨blank, blanks⟩
  | case3 c rest nothing letter ih =>
    obtain ⟨behind, same, blanks, -⟩ := ih
    rw [nothing, List.nil_append] at same
    refine ⟨behind, by rw [same]; rfl, blanks, ?_⟩
    rintro _ ⟨⟩
    simpa using letter
  | case4 c rest written ih =>
    obtain ⟨behind, same, blanks, letter⟩ := ih
    refine ⟨behind, by rw [List.cons_append, ← same], blanks, fun d last => ?_⟩
    apply letter d
    rwa [List.getLast?_cons_of_ne_nil (by simpa using written)] at last

theorem trimEnd_of_last {t : Text} (letter : ∀ c, t.getLast? = some c → isBlank c = false) :
    trimEnd t = t := by
  obtain ⟨behind, same, blanks, -⟩ := exists_trimEnd_append t
  cases behind using List.reverseRecOn with
  | nil => exact (same.trans (List.append_nil _)).symm
  | append_singleton behind c =>
    have blank : isBlank c = true := blanks c (by simp)
    have inside : isBlank c = false := letter c (by rw [same]; simp)
    rw [blank] at inside
    contradiction

theorem trimmedTo_iff {t core : Text} : TrimmedTo t core ↔ core = trimEnd (trimStart t) := by
  constructor
  · rintro ⟨⟨before, behind, rfl, blanks⟩, first, last⟩
    obtain ⟨blankBefore, blankBehind⟩ := List.forall_mem_append.mp blanks
    cases core with
    | nil =>
      rw [trimEnd_of_blank fun c member => ?_]
      have inside := List.dropWhile_subset isBlank member
      rw [List.append_nil] at inside
      exact blanks c inside
    | cons c rest =>
      have start : trimStart (before ++ (c :: rest) ++ behind) = (c :: rest) ++ behind := by
        rw [List.append_assoc, trimStart, List.dropWhile_append_of_pos blankBefore]
        exact trimStart_of_head fun d begins => first d begins
      rw [start, trimEnd_append_of_blank blankBehind, trimEnd_of_last last]
  · rintro rfl
    obtain ⟨behind, same, blanks, last⟩ := exists_trimEnd_append (trimStart t)
    refine ⟨⟨t.takeWhile isBlank, behind, ?_, ?_⟩, ?_, last⟩
    · rw [List.append_assoc, ← same]
      exact List.takeWhile_append_dropWhile.symm
    · exact List.forall_mem_append.mpr ⟨fun c member => List.mem_takeWhile_imp member, blanks⟩
    · intro c begins
      apply head?_trimStart (t := t)
      rw [same, List.head?_append, begins]
      rfl

end ManualPages.Text
