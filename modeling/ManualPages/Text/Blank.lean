import ManualPages.Text.Basic

/-! # Blank characters

White space is the Unicode property `White_Space`, given here as its ranges of code
points, and the words of a text are its maximal runs of other characters.

* `isBlank` — membership in the property.
* `trimStart`, `trimEnd` — a text without the blanks at one end.
* `splitWord` — the first word-like run and what follows it.
* `words` — all words, in order.
-/

namespace ManualPages.Text

/-- The ranges of code points, both ends included, of the property `White_Space`. -/
def blankRanges : List (Nat × Nat) :=
  [(0x09, 0x0D), (0x20, 0x20), (0x85, 0x85), (0xA0, 0xA0), (0x1680, 0x1680),
   (0x2000, 0x200A), (0x2028, 0x2029), (0x202F, 0x202F), (0x205F, 0x205F),
   (0x3000, 0x3000)]

def isBlank (c : Char) : Bool :=
  blankRanges.any fun (first, last) => first ≤ c.toNat && c.toNat ≤ last

def trimStart (t : Text) : Text := t.dropWhile isBlank

def trimEnd : Text → Text
  | [] => []
  | c :: rest =>
    match trimEnd rest with
    | [] => if isBlank c then [] else [c]
    | kept => c :: kept

/-- The characters before the first blank, and the rest from that blank on. -/
def splitWord (t : Text) : Text × Text :=
  (t.takeWhile (! isBlank ·), t.dropWhile (! isBlank ·))

/-- The words of a text: its maximal runs of characters that are not blank. -/
def words (t : Text) : List Text := (t.splitOnP isBlank).filter (! ·.isEmpty)

end ManualPages.Text
