import Mathlib.Data.List.Induction
import ManualPages.FileTree.Lookup

/-! # Reading what was written

The reader of octets gives back every text from its UTF-8 form.  A character is read octet by
octet: the first one says what is owed, and each later one lies in the range that is owed.

* `scan_leading`, `scan_owed_more`, `scan_owed_last` — what one octet of a longer character does.
* `scan_encodeChar` — the octets of a character are read as that character.
* `scan_encode`, `decode?_encode`, `decodeLossy_encode` — the same of a text.
* `head?_encode_slash`, `getLast?_encode_slash` — where the form of a text begins or ends in a slash.
-/

namespace ManualPages.Octets

/-! ## Single octets -/

theorem scan_leading {octet : UInt8} {owed : Owed} (leads : start octet = .leading owed)
    (rest : Octets) : scan none (octet :: rest) = scan (some owed) rest := by
  simp [scan, step, begin, leads]

theorem scan_owed_more {more low high bits : Nat} {octet : UInt8}
    (least : low ≤ octet.toNat) (greatest : octet.toNat ≤ high) (rest : Octets) :
    scan (some ⟨more + 1, low, high, bits⟩) (octet :: rest) =
      scan (some ⟨more, 0x80, 0xBF, bits * 64 + (octet.toNat - 0x80)⟩) rest := by
  simp [scan, step, least, greatest]

theorem scan_owed_last {low high bits : Nat} {octet : UInt8}
    (least : low ≤ octet.toNat) (greatest : octet.toNat ≤ high) (rest : Octets) :
    scan (some ⟨0, low, high, bits⟩) (octet :: rest) =
      some (Char.ofNat (bits * 64 + (octet.toNat - 0x80))) :: scan none rest := by
  simp [scan, step, least, greatest]

theorem toNat_ofNat_of_lt {n : Nat} (small : n < 256) : (UInt8.ofNat n).toNat = n := by
  simp [Nat.mod_eq_of_lt small]

/-! ## First octets -/

theorem start_one {octet : UInt8} {n : Nat} (number : octet.toNat = n) (small : n < 0x80) :
    start octet = .whole (Char.ofNat n) := by
  simp only [start, number]
  rw [if_pos small]

theorem start_two {octet : UInt8} {n : Nat} (number : octet.toNat = n + 0xC0)
    (least : 2 ≤ n) (greatest : n < 0x20) : start octet = .leading ⟨0, 0x80, 0xBF, n⟩ := by
  simp only [start, number, Nat.add_sub_cancel]
  rw [if_neg (by omega), if_neg (by omega), if_pos (by omega)]

/-- The first octet of three lets the second one be `m` past the least, unless the character
    would be too small for three octets or a surrogate. -/
theorem start_three {octet : UInt8} {n m : Nat} (number : octet.toNat = n + 0xE0) (few : n < 0x10)
    (small : m < 0x40) (long : n = 0 → 0x20 ≤ m) (noSurrogate : n = 0xD → m < 0x20) :
    ∃ low high, start octet = .leading ⟨1, low, high, n⟩ ∧ low ≤ m + 0x80 ∧ m + 0x80 ≤ high := by
  simp only [start, number, Nat.add_sub_cancel]
  rw [if_neg (by omega), if_neg (by omega), if_neg (by omega)]
  by_cases zero : n = 0
  · have := long zero
    exact ⟨0xA0, 0xBF, by rw [if_pos (by omega), zero], by omega, by omega⟩
  · by_cases surrogates : n = 0xD
    · have := noSurrogate surrogates
      refine ⟨0x80, 0x9F, ?_, by omega, by omega⟩
      rw [if_neg (by omega), if_pos (by omega), surrogates]
    · refine ⟨0x80, 0xBF, ?_, by omega, by omega⟩
      rw [if_neg (by omega), if_neg (by omega), if_pos (by omega)]

/-- The first octet of four lets the second one be `m` past the least, unless the character
    would be too small for four octets or above U+10FFFF. -/
theorem start_four {octet : UInt8} {n m : Nat} (number : octet.toNat = n + 0xF0) (few : n ≤ 4)
    (small : m < 0x40) (long : n = 0 → 0x10 ≤ m) (inRange : n = 4 → m < 0x10) :
    ∃ low high, start octet = .leading ⟨2, low, high, n⟩ ∧ low ≤ m + 0x80 ∧ m + 0x80 ≤ high := by
  simp only [start, number, Nat.add_sub_cancel]
  rw [if_neg (by omega), if_neg (by omega), if_neg (by omega), if_neg (by omega), if_neg (by omega),
    if_neg (by omega)]
  by_cases zero : n = 0
  · have := long zero
    exact ⟨0x90, 0xBF, by rw [if_pos (by omega), zero], by omega, by omega⟩
  · by_cases last : n = 4
    · have := inRange last
      refine ⟨0x80, 0x8F, ?_, by omega, by omega⟩
      rw [if_neg (by omega), if_neg (by omega), if_pos (by omega), last]
    · refine ⟨0x80, 0xBF, ?_, by omega, by omega⟩
      rw [if_neg (by omega), if_pos (by omega)]

/-! ## Characters -/

/-- A character is no surrogate and at most U+10FFFF. -/
theorem toNat_valid (c : Char) : c.toNat < 0xD800 ∨ (0xDFFF < c.toNat ∧ c.toNat < 0x110000) :=
  c.valid

theorem scan_encodeChar (c : Char) (rest : Octets) :
    scan none (String.utf8EncodeChar c ++ rest) = some c :: scan none rest := by
  have valid := toNat_valid c
  have whole : Char.ofNat c.toNat = c := Char.ofNat_toNat c
  have value : c.val.toNat = c.toNat := rfl
  unfold String.utf8EncodeChar
  simp only [value]
  generalize c.toNat = v at valid whole
  -- the octets after the first, the last one first; the cases are the numbers of octets
  have last := toNat_ofNat_of_lt (n := v % 0x40 + 0x80) (by omega)
  have third := toNat_ofNat_of_lt (n := v / 64 % 0x40 + 0x80) (by omega)
  have second := toNat_ofNat_of_lt (n := v / 4096 % 0x40 + 0x80) (by omega)
  split
  next one =>
    have starts := start_one (toNat_ofNat_of_lt (n := v) (by omega)) (by omega)
    simp [scan, step, begin, starts, whole]
  next more =>
  split
  next two =>
    have leads := start_two (toNat_ofNat_of_lt (n := v / 64 % 0x20 + 0xC0) (by omega))
      (by omega) (by omega)
    simp only [List.cons_append, List.nil_append]
    rw [scan_leading leads, scan_owed_last (by omega) (by omega), last]
    rw [show v / 64 % 0x20 * 64 + (v % 0x40 + 0x80 - 0x80) = v by omega, whole]
  next more =>
  split
  next three =>
    obtain ⟨low, high, leads, least, greatest⟩ :=
      start_three (m := v / 64 % 0x40) (toNat_ofNat_of_lt (n := v / 4096 % 0x10 + 0xE0) (by omega))
        (by omega) (by omega) (by omega) (by omega)
    simp only [List.cons_append, List.nil_append]
    rw [scan_leading leads, scan_owed_more (by omega) (by omega), scan_owed_last (by omega) (by omega),
      third, last]
    rw [show (v / 4096 % 0x10 * 64 + (v / 64 % 0x40 + 0x80 - 0x80)) * 64 + (v % 0x40 + 0x80 - 0x80) = v
      by omega, whole]
  next four =>
    obtain ⟨low, high, leads, least, greatest⟩ :=
      start_four (m := v / 4096 % 0x40) (toNat_ofNat_of_lt (n := v / 262144 % 0x08 + 0xF0) (by omega))
        (by omega) (by omega) (by omega) (by omega)
    simp only [List.cons_append, List.nil_append]
    rw [scan_leading leads, scan_owed_more (by omega) (by omega), scan_owed_more (by omega) (by omega),
      scan_owed_last (by omega) (by omega), second, third, last]
    rw [show ((v / 262144 % 0x08 * 64 + (v / 4096 % 0x40 + 0x80 - 0x80)) * 64 +
      (v / 64 % 0x40 + 0x80 - 0x80)) * 64 + (v % 0x40 + 0x80 - 0x80) = v by omega, whole]

/-! ## Texts -/

theorem encode_append (first second : Text) :
    encode (first ++ second) = encode first ++ encode second :=
  List.flatMap_append

theorem encode_cons_slash (t : Text) : encode ('/' :: t) = slash :: encode t := rfl

theorem scan_encode (t : Text) : scan none (encode t) = t.map some := by
  induction t with
  | nil => rfl
  | cons c rest ih =>
    rw [encode, List.flatMap_cons, scan_encodeChar, List.map_cons]
    rw [encode] at ih
    rw [ih]

/-- A text is read back from its UTF-8 form. -/
theorem decode?_encode (t : Text) : decode? (encode t) = some t := by
  rw [decode?, scan_encode]
  induction t with
  | nil => rfl
  | cons c rest ih => simp [ih]

theorem encode_inj {t u : Text} : encode t = encode u ↔ t = u := by
  refine ⟨fun same => Option.some.inj ?_, congrArg encode⟩
  rw [← decode?_encode t, same, decode?_encode]

theorem decodeLossy_encode (t : Text) : decodeLossy (encode t) = t := by
  simp [decodeLossy, scan_encode, Function.comp_def]

/-! ## Slashes -/

theorem scan_slash (rest : Octets) : scan none (slash :: rest) = some '/' :: scan none rest := rfl

/-- What is read from octets that begin with a slash begins with one. -/
theorem head?_of_decode? {octets : Octets} {t : Text} (read : decode? octets = some t)
    (absolute : octets.head? = some slash) : t.head? = some '/' := by
  obtain ⟨rest, rfl⟩ := List.head?_eq_some_iff.mp absolute
  rw [decode?, scan_slash] at read
  simp only [List.mapM_cons, id_eq, Option.bind_eq_bind, Option.bind_some,
    Option.bind_eq_some_iff] at read
  obtain ⟨more, -, made⟩ := read
  cases made
  rfl

theorem head?_encode_slash (t : Text) : (encode t).head? = some slash ↔ t.head? = some '/' := by
  constructor
  · exact head?_of_decode? (decode?_encode t)
  · intro absolute
    obtain ⟨rest, rfl⟩ := List.head?_eq_some_iff.mp absolute
    rfl

theorem getLast?_encodeChar_slash (c : Char) :
    (String.utf8EncodeChar c).getLast? = some slash ↔ c = '/' := by
  have valid := toNat_valid c
  have value : c.val.toNat = c.toNat := rfl
  have same (n : Nat) (small : n < 256) : UInt8.ofNat n = slash ↔ n = 47 := by
    rw [← UInt8.toNat_inj, toNat_ofNat_of_lt small]
    rfl
  have character : c = '/' ↔ c.toNat = 47 := by rw [← Char.toNat_inj]; rfl
  rw [character]
  unfold String.utf8EncodeChar
  simp only [value]
  generalize c.toNat = v at valid
  -- no octet after the first is that of a character of one octet
  have later : UInt8.ofNat (v % 0x40 + 0x80) ≠ slash := by
    rw [Ne, same _ (by omega)]
    omega
  split
  next one =>
    rw [List.getLast?_singleton, Option.some.injEq, same v (by omega)]
  next more =>
    have other : v ≠ 47 := by omega
    split
    · simp only [List.getLast?_cons_cons, List.getLast?_singleton, Option.some.injEq, later, other]
    · split <;>
        simp only [List.getLast?_cons_cons, List.getLast?_singleton, Option.some.injEq, later, other]

theorem getLast?_encode_slash (t : Text) : (encode t).getLast? = some slash ↔ t.getLast? = some '/' := by
  cases t using List.reverseRecOn with
  | nil => simp [encode]
  | append_singleton before c =>
    have nonempty : (String.utf8EncodeChar c).getLast?.isSome := by
      simp [List.getLast?_isSome, String.utf8EncodeChar_ne_nil]
    rw [encode_append, List.getLast?_append, encode, List.flatMap_singleton,
      Option.or_of_isSome nonempty, getLast?_encodeChar_slash]
    simp

end ManualPages.Octets
