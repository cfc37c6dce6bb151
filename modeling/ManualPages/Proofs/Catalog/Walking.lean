import Mathlib.Data.List.Basic
import Mathlib.Data.List.Induction
import ManualPages.Catalog.Basic

/-! # Walking over the records of a key

A walk asks for the next record of a key and a subject again and again, from the bookmark of the last
one, while records are added at the end of the catalog.  It passes nothing over and comes to nothing
twice.  The invariant that carries this is `Walk.Sound`: what the walk has found, and behind its
bookmark what is still to be found, are all records of the key and the subject.

* `places`, `search_eq_head?` — the records of a key with their bookmarks, the first of which a
  search finds.
* `behind`, `behind_of_next?` — those behind a bookmark, of which each call takes the first.
* `rest`, `rest_eq_behind` — the calls until there is none.
* `Walk.step`, `Walk.sound_step`, `Walk.sound_after` — the calls of a walk, and what they keep.
* `Walk.after_adds`, `Walk.found_after_nexts` — additions alone, and calls for the next record alone.
* `Walk.found_outcome` — what any walk has found, has still to find and finds later.
-/

namespace ManualPages

namespace Catalog

variable {catalog : Catalog} {key : Text} {subject : Subject}

/-! ## Bookmarks -/

/-- The records of a key and a subject in a list, with their positions, which are counted from
    `position`. -/
def places (key : Text) (subject : Subject) (position : Nat) (records : List Record) :
    List (Bookmark × Record) :=
  ((records.zipIdx position).filter (·.1.hasKey key subject)).map fun (record, place) =>
    (⟨place⟩, record)

theorem places_cons (position : Nat) (record : Record) (rest : List Record) :
    places key subject position (record :: rest) =
      if record.hasKey key subject then (⟨position⟩, record) :: places key subject (position + 1) rest
      else places key subject (position + 1) rest := by
  by_cases here : record.hasKey key subject <;> simp [places, here]

theorem places_append (position : Nat) (first second : List Record) :
    places key subject position (first ++ second) =
      places key subject position first ++
        places key subject (position + first.length) second := by
  simp [places, List.zipIdx_append]

theorem map_snd_places (position : Nat) (records : List Record) :
    (places key subject position records).map Prod.snd = records.filter (·.hasKey key subject) := by
  induction records generalizing position with
  | nil => rfl
  | cons record rest ih => by_cases here : record.hasKey key subject <;> simp [places_cons, here, ih]

theorem places_pairwise (position : Nat) (records : List Record) :
    (places key subject position records).Pairwise fun a b => a.1.position < b.1.position := by
  have increasing : (records.zipIdx position).Pairwise fun a b => a.2 < b.2 := by
    rw [← List.pairwise_map, List.zipIdx_map_snd]
    exact List.pairwise_lt_range'
  exact (increasing.filter _).map _ fun _ _ before => before

theorem getElem?_of_mem_places {records : List Record} {mark : Bookmark × Record}
    (member : mark ∈ places key subject 0 records) :
    records[mark.1.position]? = some mark.2 := by
  obtain ⟨⟨record, place⟩, kept, rfl⟩ := List.mem_map.mp member
  exact List.mk_mem_zipIdx_iff_getElem?.mp (List.mem_of_mem_filter kept)

/-- What follows the first of the records lies behind its position. -/
theorem places_eq_cons {position : Nat} {records : List Record} {mark : Bookmark × Record}
    {later : List (Bookmark × Record)} (found : places key subject position records = mark :: later) :
    position ≤ mark.1.position ∧ mark.1.position < position + records.length ∧
      later = places key subject (mark.1.position + 1)
        (records.drop (mark.1.position + 1 - position)) := by
  induction records generalizing position with
  | nil => contradiction
  | cons record rest ih =>
    rw [places_cons] at found
    split at found
    · obtain ⟨rfl, rfl⟩ := List.cons.inj found
      simp
    · -- a record of another key is passed over, and the positions go on
      obtain ⟨lower, upper, same⟩ := ih found
      have further : mark.1.position + 1 - position = mark.1.position + 1 - (position + 1) + 1 := by
        omega
      refine ⟨by omega, by simp only [List.length_cons]; omega, ?_⟩
      rw [same, further, List.drop_succ_cons]

/-! ## One call -/

theorem search_eq_head? (position : Nat) (records : List Record) :
    search key subject position records = (places key subject position records).head? := by
  induction records generalizing position with
  | nil => rfl
  | cons record rest ih =>
    rw [search, places_cons, ih]
    split <;> rfl

/-- Where a search begins that is taken up again after a bookmark, or at the beginning. -/
def resume (after? : Option Bookmark) : Nat := after?.elim 0 (·.position + 1)

/-- The records of a key and a subject behind a bookmark, or all of them. -/
def behind (catalog : Catalog) (key : Text) (subject : Subject) (after? : Option Bookmark) :
    List (Bookmark × Record) :=
  places key subject (resume after?) (catalog.records.drop (resume after?))

theorem next?_eq_head? (catalog : Catalog) (key : Text) (subject : Subject)
    (after? : Option Bookmark) :
    catalog.next? key subject after? = (catalog.behind key subject after?).head? :=
  search_eq_head? _ _

theorem next?_eq_none_iff {after? : Option Bookmark} :
    catalog.next? key subject after? = none ↔ catalog.behind key subject after? = [] := by
  rw [next?_eq_head?, List.head?_eq_none_iff]

/-- A call takes the first of the records behind its bookmark, and its new bookmark has the others
    behind it. -/
theorem behind_of_next? {after? : Option Bookmark} {mark : Bookmark × Record}
    (found : catalog.next? key subject after? = some mark) :
    resume after? ≤ mark.1.position ∧ mark.1.position < catalog.size ∧
      catalog.behind key subject after? = mark :: catalog.behind key subject (some mark.1) := by
  rw [next?_eq_head?] at found
  obtain ⟨later, cut⟩ := List.head?_eq_some_iff.mp found
  obtain ⟨lower, upper, same⟩ := places_eq_cons cut
  rw [List.length_drop] at upper
  have place : resume after? + (mark.1.position + 1 - resume after?) = mark.1.position + 1 := by omega
  refine ⟨lower, by rw [size]; omega, ?_⟩
  rw [cut, same, List.drop_drop, place]
  rfl

theorem behind_none (catalog : Catalog) (key : Text) (subject : Subject) :
    (catalog.behind key subject none).map Prod.snd = catalog.recordsOf key subject :=
  map_snd_places 0 catalog.records

/-- The records that come in while the catalog grows come in at the end. -/
theorem behind_append {after? : Option Bookmark} (bounded : resume after? ≤ catalog.size)
    (added : List Record) :
    behind ⟨catalog.records ++ added⟩ key subject after? =
      catalog.behind key subject after? ++ places key subject catalog.size added := by
  have place : resume after? + (catalog.size - resume after?) = catalog.size := by omega
  rw [behind, List.drop_append_of_le_length bounded, places_append, List.length_drop]
  rw [← size, place]
  rfl

/-- What the calls after a bookmark give until there is none. -/
def rest (catalog : Catalog) (key : Text) (subject : Subject) (after? : Option Bookmark) :
    List (Bookmark × Record) :=
  match _ : catalog.next? key subject after? with
  | none => []
  | some mark => mark :: rest catalog key subject (some mark.1)
termination_by catalog.size - resume after?
decreasing_by
  -- the bookmark moves on and stays inside the catalog
  rename_i found
  obtain ⟨lower, upper, -⟩ := behind_of_next? found
  change catalog.size - (mark.1.position + 1) < catalog.size - resume after?
  omega

theorem rest_eq_behind (catalog : Catalog) (key : Text) (subject : Subject)
    (after? : Option Bookmark) :
    catalog.rest key subject after? = catalog.behind key subject after? := by
  fun_induction rest catalog key subject after? with
  | case1 after? found => exact (next?_eq_none_iff.mp found).symm
  | case2 after? mark found ih => rw [ih, (behind_of_next? found).2.2]

/-- The definition of a key is the content of the record that a walk finds first. -/
theorem first?_eq_next? (catalog : Catalog) (key : Text) (subject : Subject) :
    catalog.first? key subject = (catalog.next? key subject none).map (·.2.content) := by
  have first : ((catalog.next? key subject none).map Prod.snd) =
      (catalog.recordsOf key subject).head? := by
    rw [next?_eq_head?, ← List.head?_map, behind_none]
  rw [first?, ← List.head?_filter, ← recordsOf, ← first, Option.map_map]
  rfl

end Catalog

/-! ## Walks -/

/-- A walk over the records of a key and a subject: the catalog as it is, the bookmark that the walk
    has come to, and what it has found. -/
structure Walk where
  catalog : Catalog
  bookmark? : Option Bookmark := none
  found : List (Bookmark × Record) := []

namespace Walk

variable {key : Text} {subject : Subject} {walk : Walk}

inductive Call where
  | add (record : Record)
  | next

/-- What a call does.  Where there is no next record the walk stays where it is. -/
def step (key : Text) (subject : Subject) (walk : Walk) : Call → Walk
  | .add record =>
    { walk with catalog := walk.catalog.add record.key record.content record.subject }
  | .next =>
    match walk.catalog.next? key subject walk.bookmark? with
    | none => walk
    | some mark => { walk with bookmark? := some mark.1, found := walk.found ++ [mark] }

def after (key : Text) (subject : Subject) (walk : Walk) (calls : List Call) : Walk :=
  calls.foldl (step key subject) walk

/-- The walk has found everything up to its bookmark, which is in the catalog. -/
structure Sound (key : Text) (subject : Subject) (walk : Walk) : Prop where
  bounded : Catalog.resume walk.bookmark? ≤ walk.catalog.size
  whole : walk.found ++ walk.catalog.behind key subject walk.bookmark? =
    walk.catalog.behind key subject none

theorem sound_begin (catalog : Catalog) : Sound key subject ⟨catalog, none, []⟩ :=
  ⟨Nat.zero_le _, rfl⟩

theorem sound_step (sound : walk.Sound key subject) (call : Call) :
    (walk.step key subject call).Sound key subject := by
  cases call with
  | add record =>
    constructor
    · refine Nat.le_trans sound.bounded ?_
      simp [step, Catalog.add, Catalog.size]
    · change walk.found ++ Catalog.behind ⟨walk.catalog.records ++ [record]⟩ _ _ walk.bookmark? =
        Catalog.behind ⟨walk.catalog.records ++ [record]⟩ _ _ none
      rw [Catalog.behind_append sound.bounded, Catalog.behind_append (Nat.zero_le _),
        ← List.append_assoc, sound.whole]
  | next =>
    rw [step]
    split
    · exact sound
    next mark found =>
      obtain ⟨-, inside, cut⟩ := Catalog.behind_of_next? found
      refine ⟨inside, ?_⟩
      change walk.found ++ [mark] ++ _ = _
      rw [← sound.whole, cut, List.append_assoc]
      rfl

theorem sound_after (sound : walk.Sound key subject) (calls : List Call) :
    (walk.after key subject calls).Sound key subject := by
  induction calls generalizing walk with
  | nil => exact sound
  | cons call calls ih => exact ih (sound_step sound call)

/-- Records that are added do not move the walk. -/
theorem after_adds (walk : Walk) (records : List Record) :
    walk.after key subject (records.map .add) =
      { walk with catalog := ⟨walk.catalog.records ++ records⟩ } := by
  induction records generalizing walk with
  | nil => simp [after]
  | cons record records ih =>
    refine (ih _).trans ?_
    simp [step, Catalog.add]

/-- Each call for the next record finds the first of those that are left, as long as there is one. -/
theorem found_after_nexts (walk : Walk) (count : Nat) :
    (walk.after key subject (List.replicate count .next)).found =
      walk.found ++ (walk.catalog.behind key subject walk.bookmark?).take count := by
  induction count generalizing walk with
  | zero => simp [after]
  | succ count ih =>
    rw [List.replicate_succ]
    change ((walk.step key subject .next).after key subject _).found = _
    rw [ih, step]
    cases found : walk.catalog.next? key subject walk.bookmark? with
    | none => simp [Catalog.next?_eq_none_iff.mp found]
    | some mark =>
      obtain ⟨-, -, cut⟩ := Catalog.behind_of_next? found
      simp [cut]

/-- However calls for the next record and additions follow each other, what a walk has found is a
    beginning of the records of the key and the subject in the catalog as it is, and the calls until
    there is none give the others, one with each call: each of them once, from its own place, in the
    order in which they were added.  There is no next one exactly if all are found, and then the next
    one is the first that is added.  A walk without additions finds all of them, the definition first. -/
theorem found_outcome (catalog : Catalog) (key : Text) (subject : Subject) (calls : List Call) :
    let walk := Walk.after key subject ⟨catalog, none, []⟩ calls
    let rest := walk.catalog.rest key subject walk.bookmark?
    let next? := walk.catalog.next? key subject walk.bookmark?
    walk.found.map Prod.snd <+: walk.catalog.recordsOf key subject ∧
    (walk.found ++ rest).map Prod.snd = walk.catalog.recordsOf key subject ∧
    ((walk.found ++ rest).Pairwise fun a b => a.1.position < b.1.position) ∧
    (∀ mark ∈ walk.found ++ rest, walk.catalog.records[mark.1.position]? = some mark.2) ∧
    (∀ count, (walk.after key subject (List.replicate count .next)).found =
      walk.found ++ rest.take count) ∧
    (next? = none ↔ walk.found.map Prod.snd = walk.catalog.recordsOf key subject) ∧
    (next? = none → ∀ added : List Record,
      let later := walk.after key subject (added.map .add)
      (later.catalog.next? key subject later.bookmark?).map Prod.snd =
        added.find? (·.hasKey key subject)) ∧
    (catalog.rest key subject none).map Prod.snd = catalog.recordsOf key subject ∧
    ((catalog.rest key subject none).head?).map (·.2.content) = catalog.first? key subject := by
  intro walk rest next?
  have sound : walk.Sound key subject := sound_after (sound_begin catalog) calls
  -- everything about the records follows from their list with the bookmarks
  have whole : walk.found ++ rest = walk.catalog.behind key subject none := by
    rw [← sound.whole, ← Catalog.rest_eq_behind]
  have all : (walk.found ++ rest).map Prod.snd = walk.catalog.recordsOf key subject := by
    rw [whole, Catalog.behind_none]
  refine ⟨?_, all, ?_, ?_, ?_, ?_, ?_, ?_, ?_⟩
  · rw [← all, List.map_append]
    exact List.prefix_append _ _
  · rw [whole]
    exact Catalog.places_pairwise _ _
  · rw [whole]
    exact fun mark member => Catalog.getElem?_of_mem_places member
  · intro count
    rw [found_after_nexts, ← Catalog.rest_eq_behind]
  · rw [← all, Catalog.next?_eq_none_iff, ← Catalog.rest_eq_behind]
    simp [rest]
  · intro nothing added later
    have atEnd : walk.catalog.behind key subject walk.bookmark? = [] :=
      Catalog.next?_eq_none_iff.mp nothing
    have same : later = { walk with catalog := ⟨walk.catalog.records ++ added⟩ } :=
      after_adds walk added
    rw [same, Catalog.next?_eq_head?, Catalog.behind_append sound.bounded, atEnd, List.nil_append,
      ← List.head?_map, Catalog.map_snd_places, List.head?_filter]
  · rw [Catalog.rest_eq_behind, Catalog.behind_none]
  · rw [Catalog.rest_eq_behind, ← Catalog.next?_eq_head?, Catalog.first?_eq_next?]

/-- A record that is added twice is found twice, records of other subjects are passed over, and after
    the last one the walk goes on with what is added. -/
theorem found_outcome_of_late_record :
    let pager := "pager".toList
    let subject := Subject.definition .system
    let less : Record := ⟨pager, "less".toList, subject⟩
    let most : Record := ⟨pager, "most".toList, subject⟩
    let mine : Record := ⟨pager, "more".toList, .definition .user⟩
    let walk := Walk.after pager subject ⟨⟨[less]⟩, none, []⟩
      [.next, .next, .add mine, .add less, .next, .next]
    let later := walk.after pager subject ([mine, most, less].map .add)
    walk.catalog.next? pager subject walk.bookmark? = none ∧
      walk.found.map Prod.snd = [less, less] ∧
      (later.catalog.next? pager subject later.bookmark?).map Prod.snd = some most := by
  intro pager subject less most mine walk later
  have nothing : walk.catalog.next? pager subject walk.bookmark? = none := by decide
  have known : walk.catalog.recordsOf pager subject = [less, less] := by decide
  obtain ⟨-, -, -, -, -, exhausted, goesOn, -⟩ := found_outcome ⟨[less]⟩ pager subject
    [.next, .next, .add mine, .add less, .next, .next]
  refine ⟨nothing, (exhausted.mp nothing).trans known, ?_⟩
  rw [goesOn nothing]
  decide

end Walk

end ManualPages
