/-! # Texts

A text is the list of its characters, so that every function on it is a function on lists
and every law about it is a law about lists.  Cutting at separators, joining and comparing
are those of lists; here is what texts have besides.

* `splitAtDouble?`, `beforeLast?` — a text cut at two separators in a row, or at the last one.
* `lines` — the lines of a file, ended by a line feed with or without a carriage return.
* `ofNat`, `ofInt` — decimal numbers.
* `inOrder`, `sort` — the order of texts.
-/

namespace ManualPages

abbrev Text := List Char

namespace Text

/-! ## Cutting -/

/-- The part of `t` before its first two separators in a row, and the part after them. -/
def splitAtDouble? (sep : Char) : Text → Option (Text × Text)
  | [] => none
  | [_] => none
  | c :: d :: rest =>
    if c = sep ∧ d = sep then some ([], rest)
    else (splitAtDouble? sep (d :: rest)).map fun (before, behind) => (c :: before, behind)

/-- The part of `t` before its last `sep`, if there is one. -/
def beforeLast? (sep : Char) : Text → Option Text
  | [] => none
  | c :: rest =>
    match beforeLast? sep rest with
    | some before => some (c :: before)
    | none => if c = sep then some [] else none

def dropReturn : Text → Text
  | [] => []
  | ['\r'] => []
  | c :: rest => c :: dropReturn rest

/-- The lines of a text.  A line ends at a line feed, which may have one carriage return
    before it; what follows the last line feed is a line unless it is empty, and keeps a
    carriage return at its end. -/
def lines (t : Text) : List Text := close (t.splitOn '\n')
where
  /-- Takes the carriage returns off all pieces but the last, and drops an empty last one. -/
  close : List Text → List Text
    | [] => []
    | [last] => if last.isEmpty then [] else [last]
    | piece :: pieces => dropReturn piece :: close pieces

/-! ## Letters and numbers -/

/-- The text with the letters `A` to `Z` made small; all other characters stay. -/
def lower (t : Text) : Text := t.map Char.toLower

def ofNat (n : Nat) : Text := Nat.toDigits 10 n

/-- An integer in decimal digits, with a minus sign where it is negative. -/
def ofInt : Int → Text
  | .ofNat n => ofNat n
  | .negSucc n => '-' :: ofNat (n + 1)

/-! ## Lists of texts -/

/-- Whether `a` comes no later than `b` in the order of code points, which is also the
    order of their octets in UTF-8. -/
def inOrder (a b : Text) : Bool := ! b.lex a fun c d => decide (c.toNat < d.toNat)

def sort (ts : List Text) : List Text := ts.mergeSort inOrder

end Text

end ManualPages
