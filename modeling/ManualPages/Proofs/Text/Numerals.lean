import Mathlib.Data.Nat.Digits.Defs
import ManualPages.Text.Numeral

/-! # What numerals denote

A numeral is read digit by digit, with the value so far carried along.  Here it is told as a whole:
a text of decimal digits denotes the number that has these digits, whatever zeros it begins with,
and one sign may stand before it.  A width is what a numeral denotes, if it has 32 bits with sign.

* `DigitsDenote`, `Denotes` — the texts for natural numbers and integers.
* `digitsFrom?_eq_some_iff` — reading on behind digits that have been read.
* `integer?_eq_some_iff`, `width?_eq_some_iff` — the reader finds what is denoted, and nothing else.
-/

namespace ManualPages.Text

/-- The text is one or more decimal digits, and they are those of the number. -/
def DigitsDenote (t : Text) (n : Nat) : Prop :=
  ∃ digits : List Nat, digits ≠ [] ∧ (∀ d ∈ digits, d < 10) ∧
    t = digits.map Nat.digitChar ∧ n = Nat.ofDigits 10 digits.reverse

/-- The text is decimal digits, with a sign before them or without one. -/
inductive Denotes : Text → Int → Prop
  | unsigned {t : Text} {n : Nat} (digits : DigitsDenote t n) : Denotes t n
  | plus {t : Text} {n : Nat} (digits : DigitsDenote t n) : Denotes ('+' :: t) n
  | minus {t : Text} {n : Nat} (digits : DigitsDenote t n) : Denotes ('-' :: t) (-n)

/-! ## Digits -/

theorem eq_digitChar_iff {c : Char} {d : Nat} (decimal : d < 10) :
    c = d.digitChar ↔ c.toNat = '0'.toNat + d := by
  rw [← Char.toNat_inj, Nat.toNat_digitChar_of_lt_ten decimal]
  rfl

theorem digit?_eq_some_iff {c : Char} {d : Nat} :
    digit? c = some d ↔ d < 10 ∧ c = d.digitChar := by
  have range : '0' ≤ c ∧ c ≤ '9' ↔ '0'.toNat ≤ c.toNat ∧ c.toNat ≤ '0'.toNat + 9 := Iff.rfl
  rw [digit?]
  constructor
  · intro read
    split at read
    next between =>
      rw [range] at between
      obtain rfl := Option.some.inj read
      have decimal : c.toNat - '0'.toNat < 10 := by omega
      exact ⟨decimal, (eq_digitChar_iff decimal).mpr (by omega)⟩
    next => contradiction
  · rintro ⟨decimal, same⟩
    have value := (eq_digitChar_iff decimal).mp same
    rw [if_pos (range.mpr (by omega)), Option.some.injEq]
    omega

/-- What is read behind digits of the value `high` has them as its first digits. -/
theorem digitsFrom?_eq_some_iff {t : Text} {high n : Nat} :
    digitsFrom? high t = some n ↔ ∃ digits : List Nat, (∀ d ∈ digits, d < 10) ∧
      t = digits.map Nat.digitChar ∧ n = Nat.ofDigits 10 (digits.reverse ++ [high]) := by
  -- a digit that is read multiplies what stands before it by ten
  have shifted (digits : List Nat) (d high : Nat) :
      Nat.ofDigits 10 (digits.reverse ++ [high * 10 + d]) =
        Nat.ofDigits 10 ((d :: digits).reverse ++ [high]) := by
    rw [List.reverse_cons, List.append_assoc, Nat.ofDigits_append, Nat.ofDigits_append]
    simp only [List.length_reverse, List.cons_append, List.nil_append, Nat.ofDigits_cons,
      Nat.ofDigits_nil]
    ring
  induction t generalizing high with
  | nil =>
    constructor
    · rintro ⟨⟩
      exact ⟨[], by simp, rfl, by simp⟩
    · rintro ⟨digits, -, none, rfl⟩
      obtain rfl := List.map_eq_nil_iff.mp none.symm
      simp [digitsFrom?]
  | cons c rest ih =>
    rw [digitsFrom?, Option.bind_eq_some_iff]
    constructor
    · rintro ⟨d, first, others⟩
      obtain ⟨decimal, rfl⟩ := digit?_eq_some_iff.mp first
      obtain ⟨digits, decimals, rfl, rfl⟩ := ih.mp others
      exact ⟨d :: digits, List.forall_mem_cons.mpr ⟨decimal, decimals⟩, rfl, shifted digits d high⟩
    · rintro ⟨digits, decimals, written, rfl⟩
      cases digits with
      | nil => contradiction
      | cons d digits =>
        obtain ⟨first, others⟩ := List.cons.inj written
        obtain ⟨decimal, decimals⟩ := List.forall_mem_cons.mp decimals
        refine ⟨d, digit?_eq_some_iff.mpr ⟨decimal, first⟩, ?_⟩
        exact ih.mpr ⟨digits, decimals, others, (shifted digits d high).symm⟩

theorem digits?_eq_some_iff {t : Text} {n : Nat} : digits? t = some n ↔ DigitsDenote t n := by
  have value (digits : List Nat) :
      Nat.ofDigits 10 (digits.reverse ++ [0]) = Nat.ofDigits 10 digits.reverse :=
    Nat.ofDigits_append_zero _
  simp only [digits?, DigitsDenote]
  cases t with
  | nil => simp [eq_comm]
  | cons c rest =>
    simp only [List.isEmpty_cons, Bool.false_eq_true, if_false, digitsFrom?_eq_some_iff, value]
    refine exists_congr fun digits => ?_
    constructor
    · rintro ⟨decimals, written, same⟩
      refine ⟨?_, decimals, written, same⟩
      rintro rfl
      contradiction
    · exact And.right

/-! ## Signs -/

theorem DigitsDenote.head?_ne {t : Text} {n : Nat} (digits : DigitsDenote t n) {sign : Char}
    (below : sign.toNat < '0'.toNat) : t.head? ≠ some sign := by
  obtain ⟨digits, written, decimals, rfl, -⟩ := digits
  obtain ⟨d, rest, rfl⟩ := List.exists_cons_of_ne_nil written
  rw [List.map_cons, List.head?_cons, ne_eq, Option.some.injEq]
  intro same
  have value := (eq_digitChar_iff (decimals d List.mem_cons_self)).mp same.symm
  omega

theorem integer?_eq_some_iff {t : Text} {value : Int} :
    integer? t = some value ↔ Denotes t value := by
  constructor
  · intro read
    unfold integer? at read
    split at read <;> obtain ⟨n, digits, rfl⟩ := Option.map_eq_some_iff.mp read
    · exact .plus (digits?_eq_some_iff.mp digits)
    · exact .minus (digits?_eq_some_iff.mp digits)
    · exact .unsigned (digits?_eq_some_iff.mp digits)
  · intro denotes
    cases denotes with
    | unsigned digits =>
      -- no digit is a sign, so the numeral is read from its first character on
      rw [integer?, digits?_eq_some_iff.mpr digits]
      · rfl
      · rintro rest rfl
        exact digits.head?_ne (by decide) rfl
      · rintro rest rfl
        exact digits.head?_ne (by decide) rfl
    | plus digits => simp [integer?, digits?_eq_some_iff.mpr digits]
    | minus digits => simp [integer?, digits?_eq_some_iff.mpr digits]

/-- A width is read from a numeral if it fits in 32 bits with sign, and is what the numeral denotes. -/
theorem width?_eq_some_iff {t : Text} {value : Int} :
    width? t = some value ↔ Denotes t value ∧ -2 ^ 31 ≤ value ∧ value ≤ 2 ^ 31 - 1 := by
  rw [width?, Option.filter_eq_some_iff, integer?_eq_some_iff, Bool.and_eq_true, decide_eq_true_iff,
    decide_eq_true_iff]
  rfl

end ManualPages.Text
