import Mathlib.Data.List.Lex
import ManualPages.Proofs.Text.Decoding

/-! # The order of texts is the order of their octets

Texts are sorted by their characters, and names in a directory lie there as octets.  UTF-8 keeps the
order: of two characters the smaller one has the smaller octets at the first place where they differ.
So the texts among some names come in the same order whichever way they are sorted.

* `Before`, `NoLater` — lists in the order of the numbers in them, as in a dictionary.
* `mergeSort_eq` — there is only one list in order of the same lists.
* `encodeChar_append_before`, `encode_before` — characters and texts, and their octets.
* `Octets.sort`, `sort_decoded` — the texts among names, sorted by characters or by octets.
-/

namespace ManualPages

/-! ## Lists in order -/

section Order

variable {α : Type} [DecidableEq α]

/-- Whether a list comes before another one by the numbers of their elements. -/
def Before (number : α → Nat) : List α → List α → Prop :=
  List.Lex fun x y => number x < number y

/-- Whether a list comes no later than another one. -/
def noLater (number : α → Nat) (a b : List α) : Bool :=
  ! b.lex a fun x y => decide (number x < number y)

variable {number : α → Nat} {a b c : List α}

theorem noLater_iff : noLater number a b = true ↔ ¬ Before number b a := by
  rw [noLater, Bool.not_eq_true', List.lex_eq_false_iff_not_lex]
  simp only [decide_eq_true_eq]
  rfl

theorem noLater_total (a b : List α) : noLater number a b = true ∨ noLater number b a = true := by
  rw [noLater_iff, noLater_iff]
  exact (List.not_lex_total (fun x y => by omega) a b).symm

section Injective

variable (apart : ∀ x y : α, number x = number y → x = y)

include apart

theorem noLater_antisymm (first : noLater number a b = true) (second : noLater number b a = true) :
    a = b := by
  rw [noLater_iff] at first second
  refine List.lex_trichotomous (fun x y notLess notMore => apart x y ?_) first second
  exact Nat.le_antisymm (Nat.not_lt.mp notMore) (Nat.not_lt.mp notLess)

theorem eq_or_before (order : noLater number a b = true) : a = b ∨ Before number a b := by
  by_cases less : Before number a b
  · exact .inr less
  · exact .inl (noLater_antisymm apart order (noLater_iff.mpr less))

theorem noLater_trans (first : noLater number a b = true) (second : noLater number b c = true) :
    noLater number a c = true := by
  obtain rfl | lessFirst := eq_or_before apart first
  · exact second
  obtain rfl | lessSecond := eq_or_before apart second
  · exact first
  rw [noLater_iff]
  exact List.lex_asymm (fun less more => Nat.lt_asymm less more)
    (List.lex_trans (fun less more => Nat.lt_trans less more) lessFirst lessSecond)

theorem pairwise_mergeSort (lists : List (List α)) :
    (lists.mergeSort (noLater number)).Pairwise fun a b => noLater number a b = true := by
  apply List.pairwise_mergeSort
  · exact fun _ _ _ => noLater_trans apart
  · intro a b
    rw [Bool.or_eq_true]
    exact noLater_total a b

/-- There is only one list in order of the same lists. -/
theorem mergeSort_eq {lists sorted : List (List α)} (same : sorted.Perm lists)
    (inOrder : sorted.Pairwise fun a b => noLater number a b = true) :
    lists.mergeSort (noLater number) = sorted :=
  ((List.mergeSort_perm lists _).trans same.symm).eq_of_pairwise
    (fun _ _ _ _ => noLater_antisymm apart) (pairwise_mergeSort apart lists) inOrder

end Injective

end Order

namespace Octets

/-! ## Characters and texts -/

/-- The number of the first octet of a character with number `n`. -/
def leadOf (n : Nat) : Nat :=
  if n < 0x80 then n
  else if n < 0x800 then n / 64 + 0xC0
  else if n < 0x10000 then n / 4096 + 0xE0
  else n / 262144 + 0xF0

theorem leadOf_cases (n : Nat) :
    (n < 0x80 ∧ leadOf n = n) ∨ (0x80 ≤ n ∧ n < 0x800 ∧ leadOf n = n / 64 + 0xC0) ∨
    (0x800 ≤ n ∧ n < 0x10000 ∧ leadOf n = n / 4096 + 0xE0) ∨
    (0x10000 ≤ n ∧ leadOf n = n / 262144 + 0xF0) := by
  unfold leadOf
  repeat' split
  all_goals omega

theorem leadOf_mono {n m : Nat} (less : n < m) : leadOf n ≤ leadOf m := by
  have ofLess := leadOf_cases n
  have ofMore := leadOf_cases m
  omega

theorem leadOf_lt (c : Char) : leadOf c.toNat < 256 := by
  have valid := toNat_valid c
  have cases := leadOf_cases c.toNat
  omega

theorem exists_encodeChar_lead (c : Char) :
    ∃ more, String.utf8EncodeChar c = UInt8.ofNat (leadOf c.toNat) :: more := by
  obtain ⟨few, lead⟩ | ⟨least, few, lead⟩ | ⟨least, few, lead⟩ | ⟨least, lead⟩ :=
    leadOf_cases c.toNat
  all_goals rw [lead]
  · exact ⟨_, encodeChar_one rfl few⟩
  · exact ⟨_, encodeChar_two rfl least few⟩
  · exact ⟨_, encodeChar_three rfl least few⟩
  · exact ⟨_, encodeChar_four rfl least⟩

theorem ofNat_cons_before {n m : Nat} {rest others : Octets} (small : m < 256)
    (less : n < m ∨ n = m ∧ Before UInt8.toNat rest others) :
    Before UInt8.toNat (UInt8.ofNat n :: rest) (UInt8.ofNat m :: others) := by
  obtain first | ⟨rfl, later⟩ := less
  · refine .rel ?_
    rw [toNat_ofNat_of_lt small, toNat_ofNat_of_lt (by omega)]
    exact first
  · exact .cons later

/-! Of two numbers that have all but their last digits to the base 64 in common, the smaller one has
the smaller octets for those digits. -/

section Continued

variable {n m : Nat} (less : n < m) (rest others : Octets)

include less

theorem continued_one (same : n / 64 = m / 64) :
    Before UInt8.toNat (UInt8.ofNat (n % 64 + 0x80) :: rest)
      (UInt8.ofNat (m % 64 + 0x80) :: others) :=
  ofNat_cons_before (by omega) (.inl (by omega))

theorem continued_two (same : n / 4096 = m / 4096) :
    Before UInt8.toNat (UInt8.ofNat (n / 64 % 64 + 0x80) :: UInt8.ofNat (n % 64 + 0x80) :: rest)
      (UInt8.ofNat (m / 64 % 64 + 0x80) :: UInt8.ofNat (m % 64 + 0x80) :: others) := by
  apply ofNat_cons_before (by omega)
  by_cases higher : n / 64 = m / 64
  · exact .inr ⟨by omega, continued_one less rest others higher⟩
  · exact .inl (by omega)

theorem continued_three (same : n / 262144 = m / 262144) :
    Before UInt8.toNat
      (UInt8.ofNat (n / 4096 % 64 + 0x80) :: UInt8.ofNat (n / 64 % 64 + 0x80) ::
        UInt8.ofNat (n % 64 + 0x80) :: rest)
      (UInt8.ofNat (m / 4096 % 64 + 0x80) :: UInt8.ofNat (m / 64 % 64 + 0x80) ::
        UInt8.ofNat (m % 64 + 0x80) :: others) := by
  apply ofNat_cons_before (by omega)
  by_cases higher : n / 4096 = m / 4096
  · exact .inr ⟨by omega, continued_two less rest others higher⟩
  · exact .inl (by omega)

end Continued

/-- The octets of a smaller character come first, whatever follows. -/
theorem encodeChar_append_before {c d : Char} (less : c.toNat < d.toNat) (rest others : Octets) :
    Before UInt8.toNat (String.utf8EncodeChar c ++ rest) (String.utf8EncodeChar d ++ others) := by
  have bound := leadOf_lt d
  obtain first | same := Nat.lt_or_eq_of_le (leadOf_mono less)
  · obtain ⟨more, octets⟩ := exists_encodeChar_lead c
    obtain ⟨moreOther, octetsOther⟩ := exists_encodeChar_lead d
    rw [octets, octetsOther]
    exact ofNat_cons_before bound (.inl first)
  · -- characters with one first octet have the same number of octets and differ in a later one
    have cases := leadOf_cases d.toNat
    obtain ⟨few, lead⟩ | ⟨least, few, lead⟩ | ⟨least, few, lead⟩ | ⟨least, lead⟩ :=
      leadOf_cases c.toNat
    · omega
    · rw [encodeChar_two rfl least few, encodeChar_two rfl (n := d.toNat) (by omega) (by omega)]
      apply ofNat_cons_before (by omega)
      exact .inr ⟨by omega, continued_one less rest others (by omega)⟩
    · rw [encodeChar_three rfl least few, encodeChar_three rfl (n := d.toNat) (by omega) (by omega)]
      apply ofNat_cons_before (by omega)
      exact .inr ⟨by omega, continued_two less rest others (by omega)⟩
    · rw [encodeChar_four rfl least, encodeChar_four rfl (n := d.toNat) (by omega)]
      apply ofNat_cons_before (by omega)
      exact .inr ⟨by omega, continued_three less rest others (by omega)⟩

theorem encode_before {a b : Text} (less : Before Char.toNat a b) :
    Before UInt8.toNat (encode a) (encode b) := by
  induction less with
  | @nil c rest =>
    obtain ⟨first, more, same⟩ := List.exists_cons_of_ne_nil (String.utf8EncodeChar_ne_nil (c := c))
    rw [encode, encode, List.flatMap_cons, same]
    exact .nil
  | @cons c a b later ih => exact List.Lex.append_left _ ih _
  | @rel c a d b smaller => exact encodeChar_append_before smaller _ _

/-! ## Sorted names -/

/-- Names in the order of their octets. -/
def sort (names : List Octets) : List Octets := names.mergeSort (noLater UInt8.toNat)

theorem sort_eq {names sorted : List Octets} (same : sorted.Perm names)
    (inOrder : sorted.Pairwise fun a b => noLater UInt8.toNat a b = true) : sort names = sorted :=
  mergeSort_eq (fun _ _ => UInt8.toNat_inj.mp) same inOrder

theorem sort_decoded (names : List Octets) :
    Text.sort (names.filterMap decode?) = (sort names).filterMap decode? := by
  have sameNames : (sort names).Perm names := List.mergeSort_perm names _
  have inOrder : (sort names).Pairwise fun a b => noLater UInt8.toNat a b = true :=
    pairwise_mergeSort (fun _ _ => UInt8.toNat_inj.mp) names
  refine mergeSort_eq (fun _ _ => Char.toNat_inj.mp) (sameNames.filterMap decode?) ?_
  rw [List.pairwise_filterMap]
  refine inOrder.imp fun order a read b readOther => ?_
  rw [← encode_of_decode? read, ← encode_of_decode? readOther, noLater_iff] at order
  exact noLater_iff.mpr fun less => order (encode_before less)

end Octets

end ManualPages
