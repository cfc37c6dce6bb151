import Mathlib.Data.List.Count
import ManualPages.Proofs.CachePath.Serving
import ManualPages.Proofs.Text.Boundaries

/-! # Cache paths by positions

Where the rest of a name is cut can be said in two ways: by its slashes, as a relation between the
rest and its two parts, and by a search among the octets of the whole name, which goes back from the
last slash and counts positions.  The search reads only octets that are there and cuts the name only
between characters, but it goes back octet by octet, and so it may read one inside of a character.
It always has a result, which is the cache path.

* `CutsAt`, `Renamed` — where a rest is cut, and what becomes of its end.
* `cutsAt_iff`, `renamed_iff` — that is where and how the cache path does it.
* `lastSlash?`, `wayBack`, `stop`, `cutPosition`, `ofOctets?` — the search.
* `stop_passing`, `cutPosition_eq` — the positions that it comes to.
* `InPlace`, `inPlace_encode` — that they are in range, and which of them are between characters.
* `ofOctets?_eq` — its result.
* `cachePath?_outcome` — which record serves a name, where the rest is cut, and what is made of it.
-/

namespace ManualPages

namespace CachePath

/-! ## The cut -/

/-- A rest is cut just after its second-to-last slash; after its only slash if that is its first
    character; and with no such slash all of it lies behind the cut. -/
inductive CutsAt : Text → Text → Text → Prop
  | second (before : Text) {middle last : Text} : '/' ∉ middle → '/' ∉ last →
      CutsAt (before ++ '/' :: (middle ++ '/' :: last)) (before ++ ['/']) (middle ++ '/' :: last)
  | only {last : Text} : '/' ∉ last → CutsAt ('/' :: last) ['/'] last
  | nowhere {rest : Text} : rest.count '/' ≤ 1 → rest.head? ≠ some '/' → CutsAt rest [] rest

/-- A tail that begins as a directory of pages does is renamed, any other is kept. -/
inductive Renamed : Text → Text → Prop
  | pages (rest : Text) : Renamed ("man".toList ++ rest) ("cat".toList ++ rest)
  | kept {tail : Text} : ¬ "man".toList <+: tail → Renamed tail tail

theorem CutsAt.append_eq {rest before tail : Text} (cuts : CutsAt rest before tail) :
    before ++ tail = rest := by
  cases cuts <;> simp

theorem CutsAt.cons {rest before tail : Text} {c : Char} (cuts : CutsAt rest before tail)
    (two : 2 ≤ (c :: rest).count '/') (later : ¬ (c = '/' ∧ rest.count '/' ≤ 1)) :
    CutsAt (c :: rest) (c :: before) tail := by
  rw [List.count_cons] at two
  cases cuts with
  | second before noSlash noOther => exact .second (c :: before) noSlash noOther
  | only noSlash =>
    have one : ('/' :: tail).count '/' = 1 := by simp [List.count_eq_zero_of_not_mem noSlash]
    by_cases slash : c = '/'
    · exact absurd ⟨slash, one.le⟩ later
    · simp [slash, one] at two
  | nowhere few _ =>
    by_cases slash : c = '/'
    · exact absurd ⟨slash, few⟩ later
    · simp only [beq_iff_eq, slash, if_false] at two
      omega

theorem cutsAt_cut (rest : Text) : CutsAt rest (cut rest).1 (cut rest).2 := by
  fun_induction cut rest with
  | case1 => exact .nowhere (by simp) (by simp)
  | case2 c rest few =>
    obtain ⟨rfl, few⟩ := few
    by_cases slash : '/' ∈ rest
    · -- one more slash behind the first, which is the second-to-last then
      obtain ⟨middle, last, rfl, noSlash⟩ := List.eq_append_cons_of_mem slash
      have none : last.count '/' = 0 := by
        simp only [List.count_append, List.count_cons_self] at few
        omega
      exact .second [] noSlash (List.count_eq_zero.mp none)
    · exact .only slash
  | case3 c rest notFirst few =>
    have other : c ≠ '/' := by
      rintro rfl
      rw [List.count_cons_self] at few
      exact notFirst ⟨rfl, by omega⟩
    exact .nowhere few (by simpa using other)
  | case4 c rest later many ih => exact ih.cons (by omega) later

/-- There is one way only to cut a rest, and it is the one that is taken. -/
theorem cutsAt_iff {rest before tail : Text} :
    CutsAt rest before tail ↔ cut rest = (before, tail) := by
  constructor
  · intro cuts
    cases cuts with
    | second before noSlash noOther => exact cut_second_slash before noSlash noOther
    | only noSlash => exact cut_only_slash noSlash
    | nowhere few first =>
      cases rest with
      | nil => rfl
      | cons c rest =>
        have other : c ≠ '/' := by simpa using first
        rw [cut, if_neg fun slash => other slash.1, if_pos few]
  · intro same
    have cuts := cutsAt_cut rest
    rw [same] at cuts
    exact cuts

theorem renamed_formattedTail (tail : Text) : Renamed tail (formattedTail tail) := by
  unfold formattedTail
  cases begins : Legacy.pages.isPrefixOf? tail with
  | none => exact .kept (Text.isPrefixOf?_eq_none_iff.mp begins)
  | some rest =>
    obtain rfl := List.isPrefixOf?_eq_some_iff_append_eq.mp begins
    exact .pages rest

/-- There is one way only to rename a tail, and it is the one that is taken. -/
theorem renamed_iff {tail ending : Text} : Renamed tail ending ↔ formattedTail tail = ending := by
  constructor
  · intro renamed
    cases renamed with
    | pages rest =>
      rw [formattedTail, Legacy.pages, Text.isPrefixOf?_append]
      rfl
    | kept other =>
      have kept : Legacy.pages.isPrefixOf? tail = none := Text.isPrefixOf?_eq_none_iff.mpr other
      rw [formattedTail, kept]
  · rintro rfl
    exact renamed_formattedTail tail

/-! ## The search among the octets -/

open Octets (encode slash isBoundary slice?)

/-- The position of the last slash. -/
def lastSlash? : Octets → Option Nat
  | [] => none
  | octet :: rest =>
    match lastSlash? rest with
    | some position => some (position + 1)
    | none => if octet = slash then some 0 else none

/-- The positions whose octets are read on the way back from a position to the slash before it, but no
    further than to `least`. -/
def wayBack (name : Octets) (least : Nat) : Nat → List Nat
  | 0 => []
  | position + 1 =>
    if position + 1 ≤ least then []
    else if name[position]? = some slash then [position]
    else position :: wayBack name least position

/-- Where the way back ends. -/
def stop (name : Octets) (least last : Nat) : Nat := (wayBack name least last).getLastD last

/-- Where a name with a last slash is cut, its hierarchy being `least` octets long: behind the slash
    that the way back ends at, or behind the hierarchy. -/
def cutPosition (name : Octets) (least last : Nat) : Nat :=
  let place := max (stop name least last) least
  if name[place]? = some slash then place + 1 else place

def formattedOctets (tail : Octets) : Octets :=
  match (encode Legacy.pages).isPrefixOf? tail with
  | some rest => encode Legacy.formatted ++ rest
  | none => tail

/-- The octets of the cache path of a name, its hierarchy being `least` octets long.  There are none if
    an octet is read that is not there, or if a slice is refused. -/
def ofOctets? (cache name : Octets) (least : Nat) : Option Octets :=
  match lastSlash? name with
  | none => do
    let rest ← slice? name least name.length
    return cache ++ rest
  | some last =>
    let position := cutPosition name least last
    if ∀ read ∈ wayBack name least last, read < name.length then do
      let before ← slice? name least position
      let tail ← slice? name position name.length
      return cache ++ before ++ formattedOctets tail
    else none

/-! ## Positions -/

section Positions

variable {octets before behind : Octets} {least last : Nat}

theorem lastSlash?_eq_none_iff : lastSlash? octets = none ↔ slash ∉ octets := by
  induction octets with
  | nil => simp [lastSlash?]
  | cons octet rest ih =>
    rw [lastSlash?, List.mem_cons, not_or, ← ih]
    cases lastSlash? rest with
    | none => simp [eq_comm]
    | some position => simp

theorem lastSlash?_append (before : Octets) (noSlash : slash ∉ behind) :
    lastSlash? (before ++ behind) = lastSlash? before := by
  induction before with
  | nil => exact lastSlash?_eq_none_iff.mpr noSlash
  | cons octet rest ih => rw [List.cons_append, lastSlash?, lastSlash?, ih]

theorem lastSlash?_concat (before : Octets) : lastSlash? (before ++ [slash]) = some before.length := by
  induction before with
  | nil => rfl
  | cons octet rest ih => rw [List.cons_append, lastSlash?, ih, List.length_cons]

theorem getElem?_lastSlash? (found : lastSlash? octets = some last) : octets[last]? = some slash := by
  induction octets generalizing last with
  | nil => simp [lastSlash?] at found
  | cons octet rest ih =>
    rw [lastSlash?] at found
    split at found
    next position later =>
      obtain rfl := Option.some.inj found
      exact ih later
    next =>
      split at found
      next here =>
        obtain rfl := Option.some.inj found
        rw [here]
        rfl
      next => contradiction

theorem lt_of_lastSlash? (found : lastSlash? octets = some last) : last < octets.length :=
  (List.getElem?_eq_some_iff.mp (getElem?_lastSlash? found)).1

theorem isBoundary_slash {position : Nat} (here : octets[position]? = some slash) :
    isBoundary octets position = true := by
  simp [isBoundary, here, Octets.isContinuation, slash]

/-- The way back stays behind the hierarchy and before the slash that it starts from. -/
theorem mem_wayBack {read : Nat} (member : read ∈ wayBack octets least last) :
    least ≤ read ∧ read < last := by
  induction last with
  | zero => contradiction
  | succ position ih =>
    rw [wayBack] at member
    split at member
    · contradiction
    split at member
    · obtain rfl := List.mem_singleton.mp member
      omega
    · obtain rfl | further := List.mem_cons.mp member
      · omega
      · have := ih further
        omega

theorem stop_succ (octets : Octets) (least position : Nat) :
    stop octets least (position + 1) =
      if position + 1 ≤ least then position + 1
      else if octets[position]? = some slash then position
      else stop octets least position := by
  rw [stop, wayBack]
  split
  · rfl
  split
  · rfl
  · rw [List.getLastD_cons, stop]

theorem stop_of_le (octets : Octets) (near : last ≤ least) : stop octets least last = last := by
  cases last with
  | zero => rfl
  | succ position => rw [stop_succ, if_pos near]

theorem stop_slash (behind : Octets) (inside : least ≤ before.length) :
    stop (before ++ slash :: behind) least (before.length + 1) = before.length := by
  rw [stop_succ, if_neg (by omega)]
  simp

theorem stop_passing {middle : Octets} (behind : Octets) (inside : least ≤ before.length)
    (noSlash : slash ∉ middle) :
    stop (before ++ (middle ++ behind)) least (before ++ middle).length =
      stop (before ++ (middle ++ behind)) least before.length := by
  induction middle using List.reverseRecOn generalizing behind with
  | nil => rw [List.append_nil]
  | append_singleton middle octet ih =>
    have other : octet ≠ slash := by
      rintro rfl
      simp at noSlash
    have here : (before ++ (middle ++ octet :: behind))[(before ++ middle).length]? = some octet := by
      rw [← List.append_assoc, List.getElem?_append_right (Nat.le_refl _)]
      simp
    have length_eq : (before ++ (middle ++ [octet])).length = (before ++ middle).length + 1 := by
      simp [Nat.add_assoc]
    have further : ¬ (before ++ middle).length + 1 ≤ least := by
      rw [List.length_append]
      omega
    rw [List.append_assoc middle, List.singleton_append, length_eq, stop_succ, if_neg further, here,
      if_neg fun same => other (Option.some.inj same)]
    exact ih (octet :: behind) fun member => noSlash (List.mem_append_left _ member)

end Positions

/-! ## The positions in a name -/

section Names

variable {key rest before tail : Text} {least last : Nat}

theorem exists_lastSlash? (slash : '/' ∈ key ++ rest) :
    ∃ last, lastSlash? (encode (key ++ rest)) = some last := by
  rw [← Option.ne_none_iff_exists', ne_eq, lastSlash?_eq_none_iff, Octets.slash_mem_encode]
  exact not_not_intro slash

theorem lastSlash?_encode (key before : Text) {behind : Text} (noSlash : '/' ∉ behind) :
    lastSlash? (encode (key ++ (before ++ '/' :: behind))) = some (encode (key ++ before)).length := by
  rw [← List.append_assoc, Octets.encode_append, Octets.encode_cons_slash, List.append_cons,
    lastSlash?_append _ (mt Octets.slash_mem_encode.mp noSlash), lastSlash?_concat]

/-- Between the hierarchy and the last slash no slash is passed over. -/
theorem stop_encode (key : Text) {middle : Text} (behind : Text) (noSlash : '/' ∉ middle)
    (inside : least ≤ (encode key).length) :
    stop (encode (key ++ (middle ++ behind))) least (encode (key ++ middle)).length =
      stop (encode (key ++ (middle ++ behind))) least (encode key).length := by
  simp only [Octets.encode_append]
  exact stop_passing _ inside (mt Octets.slash_mem_encode.mp noSlash)

/-- With one slash in the rest at most, the search goes back at least to the end of the hierarchy. -/
theorem stop_of_few (few : rest.count '/' ≤ 1)
    (found : lastSlash? (encode (key ++ rest)) = some last) :
    isBoundary (encode (key ++ rest)) (stop (encode (key ++ rest)) (encode key).length last) = true ∧
      stop (encode (key ++ rest)) (encode key).length last ≤ (encode key).length := by
  by_cases inRest : '/' ∈ rest
  · obtain ⟨first, second, rfl, noSlash⟩ := List.eq_append_cons_of_mem inRest
    have noOther : '/' ∉ second := by
      rw [← List.count_eq_zero]
      simp only [List.count_append, List.count_cons_self] at few
      omega
    obtain rfl := Option.some.inj ((lastSlash?_encode key first noOther).symm.trans found)
    rw [stop_encode key _ noSlash (Nat.le_refl _), stop_of_le _ (Nat.le_refl _)]
    exact ⟨Octets.isBoundary_encode key _, Nat.le_refl _⟩
  · have here := isBoundary_slash (getElem?_lastSlash? found)
    rw [Octets.encode_append, lastSlash?_append _ (mt Octets.slash_mem_encode.mp inRest)] at found
    have inKey := (lt_of_lastSlash? found).le
    rw [stop_of_le _ inKey]
    exact ⟨here, inKey⟩

/-- With two slashes in the rest or more, it stops at the second-to-last one. -/
theorem stop_second {middle behind : Text} (noSlash : '/' ∉ middle) (noOther : '/' ∉ behind)
    (found : lastSlash? (encode (key ++ (before ++ '/' :: (middle ++ '/' :: behind)))) = some last) :
    stop (encode (key ++ (before ++ '/' :: (middle ++ '/' :: behind)))) (encode key).length last =
      (encode (key ++ before)).length := by
  have inside : (encode key).length ≤ (encode (key ++ before)).length := by
    simp [Octets.encode_append]
  have same : key ++ (before ++ '/' :: (middle ++ '/' :: behind)) =
      (key ++ before ++ ['/']) ++ (middle ++ '/' :: behind) := by simp
  have behindKey := Octets.length_encode_slash (key ++ before)
  rw [same] at found ⊢
  obtain rfl := Option.some.inj ((lastSlash?_encode _ middle noOther).symm.trans found)
  rw [stop_encode _ _ noSlash (by omega), behindKey, ← List.append_cons, Octets.encode_append,
    Octets.encode_cons_slash]
  exact stop_slash _ inside

theorem isBoundary_stop (cuts : CutsAt rest before tail)
    (found : lastSlash? (encode (key ++ rest)) = some last) :
    isBoundary (encode (key ++ rest)) (stop (encode (key ++ rest)) (encode key).length last) = true := by
  cases cuts with
  | second before noSlash noOther =>
    rw [stop_second noSlash noOther found, ← List.append_assoc]
    exact Octets.isBoundary_encode _ _
  | only noSlash => exact (stop_of_few (by simp [List.count_eq_zero_of_not_mem noSlash]) found).1
  | nowhere few _ => exact (stop_of_few few found).1

theorem cutPosition_eq (cuts : CutsAt rest before tail)
    (found : lastSlash? (encode (key ++ rest)) = some last) :
    cutPosition (encode (key ++ rest)) (encode key).length last = (encode (key ++ before)).length := by
  -- with one slash at most, only the octet just behind the hierarchy decides
  have atKey (few : rest.count '/' ≤ 1) :
      cutPosition (encode (key ++ rest)) (encode key).length last =
        if rest.head? = some '/' then (encode key).length + 1 else (encode key).length := by
    simp only [cutPosition, Nat.max_eq_right (stop_of_few few found).2, Octets.getElem?_encode_slash]
  cases cuts with
  | second before noSlash noOther =>
    have inside : (encode key).length ≤ (encode (key ++ before)).length := by
      simp [Octets.encode_append]
    simp only [cutPosition, stop_second noSlash noOther found, Nat.max_eq_left inside]
    rw [← List.append_assoc, if_pos ((Octets.getElem?_encode_slash _ _).mpr rfl), ← List.append_assoc,
      Octets.length_encode_slash]
  | only noSlash =>
    rw [atKey (by simp [List.count_eq_zero_of_not_mem noSlash]), if_pos List.head?_cons,
      Octets.length_encode_slash]
  | nowhere few first =>
    rw [atKey few, if_neg first, List.append_nil]

theorem formattedOctets_encode (tail : Text) :
    formattedOctets (encode tail) = encode (formattedTail tail) := by
  unfold formattedOctets formattedTail
  cases begins : Legacy.pages.isPrefixOf? tail with
  | some rest =>
    obtain rfl := List.isPrefixOf?_eq_some_iff_append_eq.mp begins
    rw [Octets.encode_append, List.isPrefixOf?_eq_some_iff_append_eq.mpr rfl, Octets.encode_append]
  | none =>
    have other : (encode Legacy.pages).isPrefixOf? (encode tail) = none := by
      rw [← Option.not_isSome_iff_eq_none, List.isSome_isPrefixOf?_eq_isPrefixOf,
        List.isPrefixOf_iff_prefix, Octets.encode_prefix_iff]
      exact Text.isPrefixOf?_eq_none_iff.mp begins
    rw [other]

/-- The positions of the search in a name with a last slash, its hierarchy being `least` octets long.
    Those that the name is sliced at, and those where the way back begins and ends, are between
    characters; of those that are read on the way it is only asked that they are in range. -/
structure InPlace (name : Octets) (least last : Nat) : Prop where
  reads : ∀ read ∈ wayBack name least last, read < name.length
  start : isBoundary name last = true
  stop : isBoundary name (stop name least last) = true
  hierarchy : isBoundary name least = true
  cut : isBoundary name (cutPosition name least last) = true

theorem inPlace_encode (key rest : Text) (found : lastSlash? (encode (key ++ rest)) = some last) :
    InPlace (encode (key ++ rest)) (encode key).length last where
  reads := fun _ member => (mem_wayBack member).2.trans (lt_of_lastSlash? found)
  start := isBoundary_slash (getElem?_lastSlash? found)
  stop := isBoundary_stop (cutsAt_cut rest) found
  hierarchy := Octets.isBoundary_encode key rest
  cut := by
    have cuts := cutsAt_cut rest
    have between := Octets.isBoundary_encode (key ++ (cut rest).1) (cut rest).2
    rw [List.append_assoc, cuts.append_eq] at between
    rw [cutPosition_eq cuts found]
    exact between

/-- What the search makes of a name is its cache path. -/
theorem ofOctets?_eq (cache key rest : Text) :
    ofOctets? (encode cache) (encode (key ++ rest)) (encode key).length =
      some (encode (ofName cache (key ++ rest) rest)) := by
  -- the part up to the end is the one before nothing
  have toEnd (before part : Text) : slice? (encode (before ++ part)) (encode before).length
      (encode (before ++ part)).length = some (encode part) := by
    simpa only [List.append_nil] using Octets.slice?_encode before part []
  by_cases slash : '/' ∈ key ++ rest
  · obtain ⟨last, found⟩ := exists_lastSlash? slash
    have cuts := cutsAt_cut rest
    have position := cutPosition_eq cuts found
    have reads := (inPlace_encode key rest found).reads
    have first := Octets.slice?_encode key (cut rest).1 (cut rest).2
    have second := toEnd (key ++ (cut rest).1) (cut rest).2
    rw [List.append_assoc] at second
    rw [cuts.append_eq] at first second
    have searched : ofOctets? (encode cache) (encode (key ++ rest)) (encode key).length =
        some (encode cache ++ encode (cut rest).1 ++ formattedOctets (encode (cut rest).2)) := by
      simp only [ofOctets?, found, if_pos reads, position, first, second]
      rfl
    rw [searched, formattedOctets_encode, ofName_of_mem slash, formattedRest, ← List.append_assoc,
      Octets.encode_append, Octets.encode_append]
  · have none := lastSlash?_eq_none_iff.mpr (mt Octets.slash_mem_encode.mp slash)
    have searched : ofOctets? (encode cache) (encode (key ++ rest)) (encode key).length =
        some (encode cache ++ encode rest) := by
      simp [ofOctets?, none, toEnd]
    rw [searched, ofName_of_notMem slash, Octets.encode_append]

end Names

end CachePath

/-! ## The cache path -/

open CachePath (CutsAt Renamed InPlace lastSlash? wayBack ofOctets?)
open Octets (encode isBoundary)

/-- A name has a cache path exactly if it begins with the hierarchy of an eligible record.  The
    first such record then serves it: a name without slashes keeps its rest, any other has it cut
    and its end renamed.  The search among the octets comes to the same path: it reads only octets
    that are there, and it ends, and slices the name, between characters. -/
theorem cachePath?_outcome (catalog : Catalog) (filter : OwnerFilter) (name : Text) :
    (catalog.cachePath? name filter = none ↔
      ∀ record ∈ catalog.records, ¬ record.Eligible filter name) ∧
    ∀ record, catalog.Serves filter name record →
      ∃ rest path, name = record.key ++ rest ∧ catalog.cachePath? name filter = some path ∧
        ('/' ∉ name → path = record.content ++ rest) ∧
        ('/' ∈ name → ∃ before tail ending, CutsAt rest before tail ∧ Renamed tail ending ∧
          path = record.content ++ before ++ ending) ∧
        ofOctets? (encode record.content) (encode name) (encode record.key).length =
          some (encode path) ∧
        ∀ last, lastSlash? (encode name) = some last →
          InPlace (encode name) (encode record.key).length last := by
  constructor
  · rw [← Option.not_isSome_iff_eq_none, Catalog.cachePath?_isSome_iff]
    push Not
    rfl
  · intro record serves
    obtain ⟨rest, rfl⟩ := serves.eligible.2
    refine ⟨rest, _, rfl, Catalog.cachePath?_of_serves rest serves, ?_, ?_,
      CachePath.ofOctets?_eq record.content record.key rest,
      fun last found => CachePath.inPlace_encode record.key rest found⟩
    · intro noSlash
      rw [CachePath.ofName, if_neg (mt List.contains_iff_mem.mp noSlash)]
    · intro slash
      refine ⟨_, _, _, CachePath.cutsAt_cut rest, CachePath.renamed_formattedTail _, ?_⟩
      rw [CachePath.ofName, if_pos (List.contains_iff_mem.mpr slash), CachePath.formattedRest,
        List.append_assoc]

/-- On the way back from the last slash both octets of a character are read, the second one first. -/
theorem wayBack_inside_character :
    let record : Record := ⟨"/m".toList, "/c".toList, .cacheMap .system⟩
    let catalog : Catalog := ⟨[record]⟩
    let name := "/m/ö/x".toList
    catalog.Serves .system name record ∧ (encode record.key).length = 2 ∧
      lastSlash? (encode name) = some 5 ∧ wayBack (encode name) 2 5 = [4, 3, 2] ∧
      isBoundary (encode name) 4 = false ∧
      catalog.cachePath? name .system = some "/c/ö/x".toList :=
  ⟨⟨[], [], rfl, by decide, by decide⟩, by decide, by decide, by decide, by decide, by decide⟩

end ManualPages
