import ManualPages.Proofs.Text.Utf8

/-! # Positions between characters

In the UTF-8 form of a text only the first octet of a character is no continuation, so a position
between two characters shows in the octet behind it.  Cutting at positions is checked: a slice
whose ends are out of range, in the wrong order or inside a character is refused.  Between parts of
a text it never is (`slice?_encode`).

* `isContinuation`, `encodeChar_cons` — the octets of a character.
* `isBoundary`, `slice?` — positions between characters, and the octets between two of them.
* `isBoundary_encode`, `slice?_encode` — the ends of the parts of a text.
* `slash_mem_encode`, `getElem?_encode_slash` — slashes among the octets.
* `encode_prefix_iff` — the beginnings of a text by its octets.
-/

namespace ManualPages.Octets

/-! ## Octets of a character -/

/-- Whether an octet goes on with a character that an earlier one began. -/
def isContinuation (octet : UInt8) : Bool := 0x80 ≤ octet.toNat && octet.toNat < 0xC0

theorem isContinuation_ofNat (n : Nat) : isContinuation (UInt8.ofNat (n % 0x40 + 0x80)) = true := by
  rw [isContinuation, toNat_ofNat_of_lt (by omega)]
  simp only [Bool.and_eq_true, decide_eq_true_eq]
  omega

theorem encodeChar_cons (c : Char) :
    ∃ first more, String.utf8EncodeChar c = first :: more ∧ isContinuation first = false ∧
      ∀ octet ∈ more, isContinuation octet = true := by
  have valid := toNat_valid c
  have value : c.val.toNat = c.toNat := rfl
  have begins {n : Nat} (range : n < 0x80 ∨ 0xC0 ≤ n ∧ n < 0x100) :
      isContinuation (UInt8.ofNat n) = false := by
    rw [isContinuation, toNat_ofNat_of_lt (by omega)]
    simp only [Bool.and_eq_false_iff, decide_eq_false_iff_not]
    omega
  unfold String.utf8EncodeChar
  simp only [value]
  generalize c.toNat = v at valid
  -- the cases are the numbers of octets
  split
  next one => exact ⟨_, _, rfl, begins (by omega), by simp⟩
  next more =>
  split
  next two =>
    exact ⟨_, _, rfl, begins (by omega), List.forall_mem_singleton.mpr (isContinuation_ofNat _)⟩
  next more =>
  split
  next three =>
    exact ⟨_, _, rfl, begins (by omega), List.forall_mem_cons.mpr
      ⟨isContinuation_ofNat _, List.forall_mem_singleton.mpr (isContinuation_ofNat _)⟩⟩
  next four =>
    refine ⟨_, _, rfl, begins (by omega), ?_⟩
    exact List.forall_mem_cons.mpr ⟨isContinuation_ofNat _, List.forall_mem_cons.mpr
      ⟨isContinuation_ofNat _, List.forall_mem_singleton.mpr (isContinuation_ofNat _)⟩⟩

theorem encode_cons (c : Char) (t : Text) : encode (c :: t) = String.utf8EncodeChar c ++ encode t :=
  List.flatMap_cons

/-! ## Boundaries and slices -/

/-- Whether a position is in range and not inside a character: it is the beginning or the end, or
    the octet behind it begins a character. -/
def isBoundary (octets : Octets) (position : Nat) : Bool :=
  position = 0 || match octets[position]? with
    | some octet => ! isContinuation octet
    | none => position = octets.length

/-- The octets between two positions, both of which have to be boundaries. -/
def slice? (octets : Octets) (first last : Nat) : Option Octets :=
  if first ≤ last ∧ isBoundary octets first ∧ isBoundary octets last then
    some ((octets.take last).drop first)
  else none

theorem getElem?_encode_append (before behind : Text) :
    (encode (before ++ behind))[(encode before).length]? = (encode behind).head? := by
  rw [encode_append, List.getElem?_append_right (Nat.le_refl _), Nat.sub_self,
    List.head?_eq_getElem?]

theorem isBoundary_encode (before behind : Text) :
    isBoundary (encode (before ++ behind)) (encode before).length = true := by
  rw [isBoundary, getElem?_encode_append]
  cases behind with
  | nil => simp [encode]
  | cons c rest =>
    obtain ⟨first, more, octets, begins, -⟩ := encodeChar_cons c
    simp [encode_cons, octets, begins]

/-- The part of a text between two others is the slice between their ends. -/
theorem slice?_encode (before part behind : Text) :
    slice? (encode (before ++ (part ++ behind))) (encode before).length
        (encode (before ++ part)).length = some (encode part) := by
  have first := isBoundary_encode before (part ++ behind)
  have last := isBoundary_encode (before ++ part) behind
  rw [List.append_assoc] at last
  have ordered : (encode before).length ≤ (encode (before ++ part)).length := by
    simp [encode_append]
  rw [slice?, if_pos ⟨ordered, first, last⟩, ← List.append_assoc, encode_append (before ++ part),
    List.take_left, encode_append, List.drop_left]

/-! ## Slashes -/

theorem slash_mem_encodeChar {c : Char} (member : slash ∈ String.utf8EncodeChar c) : c = '/' := by
  obtain ⟨first, more, octets, -, later⟩ := encodeChar_cons c
  have read := scan_encodeChar c []
  rw [octets] at member read
  rcases List.mem_cons.mp member with rfl | inside
  · -- the character is read back from its octets, and a slash is read as one
    rw [List.append_nil, scan_slash] at read
    exact (Option.some.inj (List.cons.inj read).1).symm
  · have continues := later slash inside
    simp [isContinuation, slash] at continues

theorem slash_mem_encode {t : Text} : slash ∈ encode t ↔ '/' ∈ t := by
  constructor
  · intro member
    obtain ⟨c, inside, octet⟩ := List.mem_flatMap.mp member
    rw [slash_mem_encodeChar octet] at inside
    exact inside
  · exact fun member => List.mem_flatMap.mpr ⟨'/', member, List.mem_singleton.mpr rfl⟩

theorem getElem?_encode_slash (before behind : Text) :
    (encode (before ++ behind))[(encode before).length]? = some slash ↔ behind.head? = some '/' := by
  rw [getElem?_encode_append, head?_encode_slash]

theorem length_encode_slash (t : Text) : (encode (t ++ ['/'])).length = (encode t).length + 1 := by
  rw [encode_append, List.length_append]
  rfl

/-! ## Beginnings -/

theorem scan_encode_append (t : Text) (octets : Octets) :
    scan none (encode t ++ octets) = t.map some ++ scan none octets := by
  induction t with
  | nil => rfl
  | cons c rest ih => rw [encode_cons, List.append_assoc, scan_encodeChar, ih]; rfl

theorem encode_prefix_iff {start t : Text} : encode start <+: encode t ↔ start <+: t := by
  constructor
  · rintro ⟨octets, whole⟩
    have read : scan none (encode start ++ octets) = scan none (encode t) := by rw [whole]
    rw [scan_encode_append, scan_encode] at read
    have begins : start.map some <+: t.map some := ⟨_, read⟩
    exact (List.prefix_map_iff_of_injective fun _ _ => Option.some.inj).mp begins
  · rintro ⟨rest, rfl⟩
    rw [encode_append]
    exact List.prefix_append _ _

end ManualPages.Octets
