import Mathlib.Data.List.Basic
import Mathlib.Data.List.Induction

/-! # First occurrences

What is left of a list when each element stays only where it first occurs.  `eraseDups_concat`
carries the rest: one element more stays at the end if it is new, and nothing before it changes.

* `eraseDups_concat` — one element more.
* `eraseDups_pairwise_idxOf`, `nodup_eraseDups` — the order of first occurrences, none of which
  repeats.
* `length_eraseDups_le`, `eraseDups_of_nodup` — how much is left.
* `pair_sublist_eraseDups_cons` — which of two elements occurs first.
* `eraseDups_append_filter`, `eraseDups_append_left` — one list after another.
* `eraseDups_flatMap` — repetitions of what contributes change nothing.
* `flatMap_eq_self`, `sublist_filter_iff_forall` — elements that contribute themselves, and sublists
  of what passes a test.
-/

namespace ManualPages

theorem flatMap_eq_self {α : Type} {f : α → List α} {xs : List α} (self : ∀ x ∈ xs, f x = [x]) :
    xs.flatMap f = xs := by
  rw [List.flatMap_congr self, List.flatMap_singleton']

theorem sublist_filter_iff_forall {α : Type} {p : α → Bool} {xs ys : List α} :
    xs.Sublist (ys.filter p) ↔ xs.Sublist ys ∧ ∀ x ∈ xs, p x := by
  constructor
  · intro kept
    refine ⟨kept.trans List.filter_sublist, fun x member => ?_⟩
    exact (List.mem_filter.mp (kept.subset member)).2
  · rintro ⟨inside, pass⟩
    simpa [List.filter_eq_self.mpr pass] using inside.filter p

section FirstOccurrences

variable {α : Type} [BEq α] [LawfulBEq α]

/-- One element more stays at the end, if it is new. -/
theorem eraseDups_concat (xs : List α) (x : α) :
    (xs ++ [x]).eraseDups = if x ∈ xs then xs.eraseDups else xs.eraseDups ++ [x] := by
  rw [List.eraseDups_append]
  by_cases occurred : x ∈ xs <;> simp [List.removeAll, occurred, List.eraseDups_cons]

/-- Leaving out what has occurred keeps the order of first occurrences. -/
theorem eraseDups_pairwise_idxOf (xs : List α) :
    xs.eraseDups.Pairwise fun a b => xs.idxOf a < xs.idxOf b := by
  induction xs using List.reverseRecOn with
  | nil => simp
  | append_singleton xs x ih =>
    -- one element more does not move the first occurrence of those before it
    have stays {a : α} (member : a ∈ xs.eraseDups) : (xs ++ [x]).idxOf a = xs.idxOf a :=
      List.idxOf_append_of_mem (List.mem_eraseDups.mp member)
    have front : xs.eraseDups.Pairwise fun a b => (xs ++ [x]).idxOf a < (xs ++ [x]).idxOf b := by
      refine ih.imp_of_mem fun first second earlier => ?_
      rw [stays first, stays second]
      exact earlier
    rw [eraseDups_concat]
    split
    · exact front
    next new =>
      refine List.pairwise_append.mpr ⟨front, List.pairwise_singleton _ x, ?_⟩
      intro a first b last
      obtain rfl := List.mem_singleton.mp last
      rw [stays first, List.idxOf_append_of_notMem new]
      have := List.idxOf_lt_length_of_mem (List.mem_eraseDups.mp first)
      omega

theorem nodup_eraseDups (xs : List α) : xs.eraseDups.Nodup := by
  refine (eraseDups_pairwise_idxOf xs).imp ?_
  rintro a b earlier rfl
  exact Nat.lt_irrefl _ earlier

theorem eraseDups_filter (p : α → Bool) (xs : List α) :
    (xs.filter p).eraseDups = xs.eraseDups.filter p := by
  induction xs using List.reverseRecOn with
  | nil => rfl
  | append_singleton xs x ih =>
    by_cases kept : p x <;> by_cases occurred : x ∈ xs <;>
      simp [eraseDups_concat, kept, occurred, ih]

/-- One of two elements occurs before the other: the one at the front, or else as in the rest. -/
theorem pair_sublist_eraseDups_cons {a b x : α} {xs : List α} :
    List.Sublist [a, b] (x :: xs).eraseDups ↔
      x ≠ b ∧ (x = a ∧ b ∈ xs ∨ x ≠ a ∧ List.Sublist [a, b] xs.eraseDups) := by
  rw [List.eraseDups_cons, eraseDups_filter, List.cons_sublist_cons', List.singleton_sublist,
    sublist_filter_iff_forall]
  simp only [List.mem_filter, List.mem_eraseDups, List.forall_mem_cons, List.not_mem_nil,
    Bool.not_eq_true', beq_eq_false_iff_ne]
  grind

/-- Of a list after another one those elements stay that the other one has not. -/
theorem eraseDups_append_filter (xs ys : List α) :
    (xs ++ ys).eraseDups = xs.eraseDups ++ ys.eraseDups.filter (· ∉ xs) := by
  rw [List.eraseDups_append, List.removeAll, eraseDups_filter]
  simp

/-- Nothing is left out where nothing repeats. -/
theorem eraseDups_of_nodup {xs : List α} (distinct : xs.Nodup) : xs.eraseDups = xs := by
  induction xs using List.reverseRecOn with
  | nil => rfl
  | append_singleton xs x ih =>
    obtain ⟨before, -, apart⟩ := List.nodup_append.mp distinct
    have new : x ∉ xs := fun occurred => apart x occurred x List.mem_cons_self rfl
    rw [eraseDups_concat, if_neg new, ih before]

theorem eraseDups_prefix_append (xs ys : List α) : xs.eraseDups <+: (xs ++ ys).eraseDups := by
  rw [List.eraseDups_append]
  exact List.prefix_append _ _

@[simp] theorem eraseDups_eraseDups (xs : List α) : xs.eraseDups.eraseDups = xs.eraseDups :=
  eraseDups_of_nodup (nodup_eraseDups xs)

/-- Repetitions in a first list do not count before a second one. -/
theorem eraseDups_append_left (xs ys : List α) :
    (xs.eraseDups ++ ys).eraseDups = (xs ++ ys).eraseDups := by
  simp [eraseDups_append_filter]

/-- Repetitions of what contributes change nothing. -/
theorem eraseDups_flatMap {β : Type} [BEq β] [LawfulBEq β] (f : α → List β) (xs : List α) :
    (xs.eraseDups.flatMap f).eraseDups = (xs.flatMap f).eraseDups := by
  induction xs using List.reverseRecOn with
  | nil => rfl
  | append_singleton xs x ih =>
    rw [eraseDups_concat, List.flatMap_append]
    split
    next occurred =>
      -- all that `x` contributes has occurred already
      have listed : ∀ b ∈ f x, b ∈ xs.flatMap f := fun b member =>
        List.mem_flatMap.mpr ⟨x, occurred, member⟩
      rw [ih, eraseDups_append_filter]
      simpa using listed
    · rw [List.flatMap_append, ← eraseDups_append_left, ih, eraseDups_append_left]

end FirstOccurrences

end ManualPages
