import ManualPages.Proofs.Text.Utf8

/-! # Writing what was read

Octets that are read as a text without a fault are the UTF-8 form of that text, so no two sequences
of octets are read as one text.  An octet that leads a character says how many octets are owed; if
none of them is missing or out of its range, they are the octets of the character that they make.

* `encodeChar_one` to `encodeChar_four` — the octets of a character by its number.
* `Leads`, `announces_start` — what an octet at the beginning of a character says.
* `exists_scan_leading` — the octets that an octet leads, where there is no fault.
* `encode_of_decode?` — the octets of a text that was read.
-/

namespace ManualPages.Octets

/-! ## The octets of a character -/

section Numbers

variable {c : Char} {n : Nat} (number : c.toNat = n)

include number

theorem encodeChar_one (few : n < 0x80) : String.utf8EncodeChar c = [UInt8.ofNat n] := by
  have value : c.val.toNat = n := number
  simp only [String.utf8EncodeChar, value]
  rw [if_pos (by omega)]

theorem encodeChar_two (least : 0x80 ≤ n) (greatest : n < 0x800) :
    String.utf8EncodeChar c = [UInt8.ofNat (n / 64 + 0xC0), UInt8.ofNat (n % 64 + 0x80)] := by
  have value : c.val.toNat = n := number
  simp only [String.utf8EncodeChar, value]
  rw [if_neg (by omega), if_pos (by omega), Nat.mod_eq_of_lt (a := n / 64) (by omega)]

theorem encodeChar_three (least : 0x800 ≤ n) (greatest : n < 0x10000) :
    String.utf8EncodeChar c =
      [UInt8.ofNat (n / 4096 + 0xE0), UInt8.ofNat (n / 64 % 64 + 0x80), UInt8.ofNat (n % 64 + 0x80)] := by
  have value : c.val.toNat = n := number
  simp only [String.utf8EncodeChar, value]
  rw [if_neg (by omega), if_neg (by omega), if_pos (by omega),
    Nat.mod_eq_of_lt (a := n / 4096) (by omega)]

theorem encodeChar_four (least : 0x10000 ≤ n) :
    String.utf8EncodeChar c =
      [UInt8.ofNat (n / 262144 + 0xF0), UInt8.ofNat (n / 4096 % 64 + 0x80),
        UInt8.ofNat (n / 64 % 64 + 0x80), UInt8.ofNat (n % 64 + 0x80)] := by
  have value : c.val.toNat = n := number
  have valid := toNat_valid c
  simp only [String.utf8EncodeChar, value]
  rw [if_neg (by omega), if_neg (by omega), if_neg (by omega),
    Nat.mod_eq_of_lt (a := n / 262144) (by omega)]

end Numbers

theorem toNat_ofNat {n : Nat} (valid : n < 0xD800 ∨ 0xDFFF < n ∧ n < 0x110000) :
    (Char.ofNat n).toNat = n := by
  rw [Char.ofNat, dif_pos valid]
  rfl

theorem ofNat_of_toNat {octet : UInt8} {n : Nat} (number : octet.toNat = n) :
    UInt8.ofNat n = octet := by
  rw [← number, UInt8.ofNat_toNat]

/-! ## Octets that are owed -/

/-- Where octets are owed and there is no fault, the next one is there and in its range. -/
theorem exists_of_owed {owed : Owed} {octets : Octets} (sound : none ∉ scan (some owed) octets) :
    ∃ octet rest, octets = octet :: rest ∧ owed.low ≤ octet.toNat ∧ octet.toNat ≤ owed.high := by
  cases octets with
  | nil => simp [scan] at sound
  | cons octet rest =>
    by_cases inRange : owed.low ≤ octet.toNat ∧ octet.toNat ≤ owed.high
    · exact ⟨octet, rest, rfl, inRange⟩
    · simp [scan, step, if_neg inRange] at sound

theorem exists_scan_last {low high bits : Nat} {octets : Octets}
    (sound : none ∉ scan (some ⟨0, low, high, bits⟩) octets) :
    ∃ octet rest, octets = octet :: rest ∧ low ≤ octet.toNat ∧ octet.toNat ≤ high ∧
      scan (some ⟨0, low, high, bits⟩) octets =
        some (Char.ofNat (bits * 64 + (octet.toNat - 0x80))) :: scan none rest := by
  obtain ⟨octet, rest, rfl, least, greatest⟩ := exists_of_owed sound
  exact ⟨octet, rest, rfl, least, greatest, scan_owed_last least greatest rest⟩

theorem exists_scan_more {more low high bits : Nat} {octets : Octets}
    (sound : none ∉ scan (some ⟨more + 1, low, high, bits⟩) octets) :
    ∃ octet rest, octets = octet :: rest ∧ low ≤ octet.toNat ∧ octet.toNat ≤ high ∧
      scan (some ⟨more + 1, low, high, bits⟩) octets =
        scan (some ⟨more, 0x80, 0xBF, bits * 64 + (octet.toNat - 0x80)⟩) rest := by
  obtain ⟨octet, rest, rfl, least, greatest⟩ := exists_of_owed sound
  exact ⟨octet, rest, rfl, least, greatest, scan_owed_more least greatest rest⟩

/-- What an octet that leads a character says of it, by the number of octets that are owed.  The
    range of the next octet is narrower after some, as for overlong forms and surrogates. -/
inductive Leads (octet : UInt8) : Owed → Prop
  | two {bits : Nat} (number : octet.toNat = bits + 0xC0) (long : 2 ≤ bits) (few : bits < 0x20) :
      Leads octet ⟨0, 0x80, 0xBF, bits⟩
  | three {low high bits : Nat} (number : octet.toNat = bits + 0xE0) (few : bits < 0x10)
      (least : 0x80 ≤ low) (greatest : high ≤ 0xBF) (long : bits = 0 → 0xA0 ≤ low)
      (noSurrogate : bits = 0xD → high ≤ 0x9F) : Leads octet ⟨1, low, high, bits⟩
  | four {low high bits : Nat} (number : octet.toNat = bits + 0xF0) (few : bits ≤ 4)
      (least : 0x80 ≤ low) (greatest : high ≤ 0xBF) (long : bits = 0 → 0x90 ≤ low)
      (inRange : bits = 4 → high ≤ 0x8F) : Leads octet ⟨2, low, high, bits⟩

/-- What an octet at the beginning of a character says, case by case. -/
inductive Announces (octet : UInt8) : Start → Prop
  | whole (small : octet.toNat < 0x80) : Announces octet (.whole (Char.ofNat octet.toNat))
  | leading {owed : Owed} (leads : Leads octet owed) : Announces octet (.leading owed)
  | fault : Announces octet .fault

theorem announces_start (octet : UInt8) : Announces octet (start octet) := by
  simp only [start]
  split
  next small => exact .whole small
  split
  · exact .fault
  split
  · exact .leading (.two (by omega) (by omega) (by omega))
  split
  · exact .leading (.three (by omega) (by omega) (by omega) (by omega) (by omega) (by omega))
  split
  · exact .leading (.three (by omega) (by omega) (by omega) (by omega) (by omega) (by omega))
  split
  · exact .leading (.three (by omega) (by omega) (by omega) (by omega) (by omega) (by omega))
  split
  · exact .leading (.four (by omega) (by omega) (by omega) (by omega) (by omega) (by omega))
  split
  · exact .leading (.four (by omega) (by omega) (by omega) (by omega) (by omega) (by omega))
  split
  · exact .leading (.four (by omega) (by omega) (by omega) (by omega) (by omega) (by omega))
  · exact .fault

/-- Where an octet leads a character and there is no fault, the octets owed are those of a character. -/
theorem exists_scan_leading {octet : UInt8} {owed : Owed} {octets : Octets}
    (leads : Leads octet owed) (sound : none ∉ scan (some owed) octets) :
    ∃ c more rest, octets = more ++ rest ∧ String.utf8EncodeChar c = octet :: more ∧
      scan (some owed) octets = some c :: scan none rest := by
  cases leads with
  | @two bits number long few =>
    obtain ⟨last, rest, rfl, lastLeast, lastGreatest, read⟩ := exists_scan_last sound
    refine ⟨_, [last], rest, rfl, ?_, read⟩
    rw [encodeChar_two (toNat_ofNat (by omega)) (by omega) (by omega)]
    simp only [List.cons.injEq, and_true]
    exact ⟨ofNat_of_toNat (by omega), ofNat_of_toNat (by omega)⟩
  | @three low high bits number few least greatest long noSurrogate =>
    obtain ⟨second, rest, rfl, secondLeast, secondGreatest, goesOn⟩ := exists_scan_more sound
    rw [goesOn] at sound ⊢
    obtain ⟨last, rest, rfl, lastLeast, lastGreatest, read⟩ := exists_scan_last sound
    refine ⟨_, [second, last], rest, rfl, ?_, read⟩
    rw [encodeChar_three (toNat_ofNat (by omega)) (by omega) (by omega)]
    simp only [List.cons.injEq, and_true]
    exact ⟨ofNat_of_toNat (by omega), ofNat_of_toNat (by omega), ofNat_of_toNat (by omega)⟩
  | @four low high bits number few least greatest long inRange =>
    obtain ⟨second, rest, rfl, secondLeast, secondGreatest, goesOn⟩ := exists_scan_more sound
    rw [goesOn] at sound ⊢
    obtain ⟨third, rest, rfl, thirdLeast, thirdGreatest, goesFurther⟩ := exists_scan_more sound
    rw [goesFurther] at sound ⊢
    obtain ⟨last, rest, rfl, lastLeast, lastGreatest, read⟩ := exists_scan_last sound
    refine ⟨_, [second, third, last], rest, rfl, ?_, read⟩
    rw [encodeChar_four (toNat_ofNat (by omega)) (by omega)]
    simp only [List.cons.injEq, and_true]
    exact ⟨ofNat_of_toNat (by omega), ofNat_of_toNat (by omega), ofNat_of_toNat (by omega),
      ofNat_of_toNat (by omega)⟩

/-- Where there is no fault, the first octets are those of a character, and the rest is read on. -/
theorem exists_scan_cons {octet : UInt8} {octets : Octets}
    (sound : none ∉ scan none (octet :: octets)) :
    ∃ c more rest, octets = more ++ rest ∧ String.utf8EncodeChar c = octet :: more ∧
      scan none (octet :: octets) = some c :: scan none rest := by
  have announced := announces_start octet
  cases starts : start octet with
  | whole c =>
    rw [starts] at announced
    cases announced with
    | whole small =>
      have alone : String.utf8EncodeChar (Char.ofNat octet.toNat) = [UInt8.ofNat octet.toNat] :=
        encodeChar_one (toNat_ofNat (by omega)) small
      refine ⟨Char.ofNat octet.toNat, [], octets, rfl, ?_, by simp [scan, step, begin, starts]⟩
      rw [alone, UInt8.ofNat_toNat]
  | leading owed =>
    rw [starts] at announced
    cases announced with
    | leading leads =>
      rw [scan_leading starts] at sound ⊢
      exact exists_scan_leading leads sound
  | fault => simp [scan, step, begin, starts] at sound

/-! ## Texts that were read -/

theorem decode?_eq_some_iff {octets : Octets} {t : Text} :
    decode? octets = some t ↔ scan none octets = t.map some := by
  rw [decode?]
  induction scan none octets generalizing t with
  | nil => cases t <;> simp [pure]
  | cons first rest ih =>
    cases first with
    | none => cases t <;> simp
    | some c => cases t <;> simp [ih, Option.bind_eq_some_iff, and_comm]

theorem encode_of_scan {octets : Octets} {t : Text} (read : scan none octets = t.map some) :
    encode t = octets := by
  have sound : none ∉ scan none octets := by simp [read]
  -- the text goes on with every character that is read, however many octets it takes
  induction t generalizing octets with
  | nil =>
    cases octets with
    | nil => rfl
    | cons octet octets =>
      obtain ⟨c, more, rest, -, -, first⟩ := exists_scan_cons sound
      rw [first] at read
      contradiction
  | cons c t ih =>
    cases octets with
    | nil => contradiction
    | cons octet octets =>
      obtain ⟨d, more, rest, rfl, octetsOf, first⟩ := exists_scan_cons sound
      rw [first, List.map_cons] at read
      obtain ⟨same, later⟩ := List.cons.inj read
      obtain rfl := Option.some.inj same
      rw [encode, List.flatMap_cons, octetsOf, List.cons_append]
      rw [← ih later (by simp [later])]
      rfl

/-- The octets of a text that was read are those that it was read from. -/
theorem encode_of_decode? {octets : Octets} {t : Text} (read : decode? octets = some t) :
    encode t = octets :=
  encode_of_scan (decode?_eq_some_iff.mp read)

end ManualPages.Octets
