import Mathlib.Data.List.Basic
import ManualPages.Text.Blank

/-! # Pieces of texts

What becomes of a text when it is cut: no piece has the separators, words have no blanks, lines no
line feeds, and nothing is in a piece that was not in the text.

* `of_mem_splitOnP`, `notMem_of_mem_splitOn`, `flatten_splitOnP` — pieces of any list.
* `Text.IsWord`, `Text.isWord_of_mem_words` — words, and those of a text.
* `Text.trimStart_subset`, `Text.head?_trimStart` — a text without the blanks before it.
* `Text.feed_notMem_of_mem_lines` — lines of a text.
-/

namespace ManualPages

/-! ## Lists -/

section Pieces

variable {α : Type}

theorem of_mem_splitOnP {separates : α → Bool} {xs piece : List α}
    (member : piece ∈ xs.splitOnP separates) : ∀ x ∈ piece, x ∈ xs ∧ separates x = false := by
  induction xs generalizing piece with
  | nil =>
    obtain rfl : piece = [] := by simpa using member
    simp
  | cons first rest ih =>
    have later {piece : List α} (member : piece ∈ rest.splitOnP separates) :
        ∀ x ∈ piece, x ∈ first :: rest ∧ separates x = false := fun x inside =>
      ⟨List.mem_cons_of_mem first (ih member x inside).1, (ih member x inside).2⟩
    rw [List.splitOnP_cons_eq_if_modifyHead] at member
    split at member
    · obtain rfl | member := List.mem_cons.mp member
      · simp
      · exact later member
    next kept =>
      -- `first` goes in front of the first piece of the rest, the others are as they were
      obtain ⟨piece', others, same⟩ := List.exists_cons_of_ne_nil (List.splitOnP_ne_nil separates rest)
      rw [same, List.modifyHead_cons] at member
      obtain rfl | member := List.mem_cons.mp member
      · have front := later (same ▸ List.mem_cons_self)
        simpa [kept] using front
      · exact later (same ▸ List.mem_cons_of_mem piece' member)

theorem notMem_of_mem_splitOn [BEq α] [LawfulBEq α] {separator : α} {xs piece : List α}
    (member : piece ∈ xs.splitOn separator) : separator ∉ piece := fun inside => by
  simpa using (of_mem_splitOnP member separator inside).2

/-- The pieces of a list have all that does not separate them, in order. -/
theorem flatten_splitOnP (separates : α → Bool) (xs : List α) :
    (xs.splitOnP separates).flatten = xs.filter (! separates ·) := by
  induction xs with
  | nil => rfl
  | cons x xs ih =>
    rw [List.splitOnP_cons_eq_if_modifyHead]
    obtain ⟨first, others, same⟩ := List.exists_cons_of_ne_nil (List.splitOnP_ne_nil separates xs)
    cases separated : separates x with
    | true => simp [separated, ih]
    | false =>
      rw [same] at ih ⊢
      simp [separated, ← ih]

end Pieces

namespace Text

/-! ## Words -/

/-- A text without blanks that is not empty. -/
structure IsWord (t : Text) : Prop where
  nonempty : t ≠ []
  noBlank : ∀ c ∈ t, isBlank c = false

/-- That a text has no blanks can be computed. -/
theorem noBlank_of_all {t : Text} (computed : (t.all fun c => ! isBlank c) = true) :
    ∀ c ∈ t, isBlank c = false := by
  simpa using computed

theorem isWord_of_mem_words {t word : Text} (member : word ∈ t.words) : IsWord word := by
  obtain ⟨piece, filled⟩ := List.mem_filter.mp member
  exact ⟨by simpa using filled, fun c inside => (of_mem_splitOnP piece c inside).2⟩

theorem trimStart_subset (t : Text) : trimStart t ⊆ t :=
  (List.dropWhile_suffix isBlank).subset

theorem splitWord_subset (t : Text) : (splitWord t).2 ⊆ t :=
  (List.dropWhile_suffix _).subset

theorem head?_trimStart {t : Text} {c : Char} (begins : (trimStart t).head? = some c) :
    isBlank c = false := by
  have first := List.head?_dropWhile_not isBlank t
  rw [← trimStart, begins] at first
  exact first

/-! ## Lines -/

theorem dropReturn_subset (piece : Text) : dropReturn piece ⊆ piece := by
  fun_induction dropReturn piece with
  | case1 => simp
  | case2 => simp
  | case3 c rest _ ih => exact List.cons_subset_cons c ih

theorem subset_of_mem_close {pieces : List Text} {line : Text} (member : line ∈ lines.close pieces) :
    ∃ piece ∈ pieces, line ⊆ piece := by
  fun_induction lines.close pieces with
  | case1 => simp at member
  | case2 last empty => simp at member
  | case3 last filled =>
    obtain rfl : line = last := by simpa using member
    exact ⟨line, by simp, List.Subset.refl line⟩
  | case4 piece pieces several ih =>
    obtain rfl | later := List.mem_cons.mp member
    · exact ⟨piece, by simp, dropReturn_subset piece⟩
    · obtain ⟨other, found, inside⟩ := ih later
      exact ⟨other, List.mem_cons_of_mem piece found, inside⟩

theorem feed_notMem_of_mem_lines {t line : Text} (member : line ∈ t.lines) : '\n' ∉ line := by
  obtain ⟨piece, found, inside⟩ := subset_of_mem_close member
  exact fun feed => notMem_of_mem_splitOn found (inside feed)

end Text

end ManualPages
