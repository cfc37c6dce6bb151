import ManualPages.Text.Basic

/-! # Wildcard patterns

The pattern language for directory names.  `?` stands for one character, `*` for any
number of them, `[...]` for one of a class and `[!...]` for one outside it; `**` as a whole
component stands for any number of directory levels.  There is no escape character.

* `Token`, `PatternError` — the parts of a pattern, and why a text is no pattern.
* `Pattern.scan`, `Pattern.parse` — reading a pattern, left to right.
* `Pattern.accepts` — whether a name matches.
* `Pattern.literal?`, `spansLevels` — patterns without wildcards, and `**`.
-/

namespace ManualPages

namespace Wildcard

/-! ## Parts of a pattern -/

/-- A member of a class of characters. -/
inductive ClassItem where
  | one (c : Char)
  | range (first last : Char)
  deriving DecidableEq, Repr

/-- Whether a character belongs to a member of a class. -/
def ClassItem.contains (item : ClassItem) (c : Char) : Bool :=
  match item with
  | .one d => c = d
  | .range first last => first ≤ c && c ≤ last

inductive Token where
  | literal (c : Char)
  | anyChar
  | anySequence
  | anyLevels
  | within (items : List ClassItem)
  | except (items : List ClassItem)
  deriving DecidableEq, Repr

inductive PatternFault where
  | tooManyAsterisks
  | partialLevels
  | unclosedClass
  deriving DecidableEq, Repr

/-- A fault and the position, counted in characters from zero, where it shows. -/
structure PatternError where
  position : Nat
  fault : PatternFault
  deriving DecidableEq, Repr

def PatternFault.message : PatternFault → Text
  | .tooManyAsterisks => "wildcards are either regular `*` or recursive `**`".toList
  | .partialLevels => "recursive wildcards must form a single path component".toList
  | .unclosedClass => "invalid range pattern".toList

/-- What is said of a text that is no pattern. -/
def PatternError.message (error : PatternError) : Text :=
  "Pattern syntax error near position ".toList ++ Text.ofNat error.position ++ ": ".toList
    ++ error.fault.message

/-! ## Reading -/

/-- The members of a class: three characters in a row with a hyphen in the middle are a
    range, every other character stands for itself. -/
def classItems : Text → List ClassItem
  | first :: '-' :: last :: rest => .range first last :: classItems rest
  | c :: rest => .one c :: classItems rest
  | [] => []

/-- The content of a class and what follows it.  A class has at least one character, so
    that a bracket right after the opening does not close it. -/
def classBody? : Text → Option (Text × Text)
  | [] => none
  | c :: rest =>
    if ']' ∈ rest then
      some (c :: rest.takeWhile (· ≠ ']'), (rest.dropWhile (· ≠ ']')).drop 1)
    else none

/-- What a closed class leaves is shorter than what it was read from. -/
theorem length_lt_of_classBody? {t body rest : Text} (h : classBody? t = some (body, rest)) :
    rest.length < t.length := by
  cases t with
  | nil => simp [classBody?] at h
  | cons c t =>
    simp only [classBody?] at h
    split at h
    · simp only [Option.some.injEq, Prod.mk.injEq] at h
      obtain ⟨_, rfl⟩ := h
      have := (List.dropWhile_sublist (fun x : Char => decide (x ≠ ']')) (l := t)).length_le
      simp only [List.length_drop, List.length_cons]
      omega
    · cases h

/-- Reads a pattern from a position.  `previous` is the character before that position;
    it tells whether two asterisks begin a component. -/
def scan (position : Nat) (previous : Option Char) (t : Text) :
    Except PatternError (List Token) :=
  match t with
  | [] => .ok []
  | '?' :: rest => (scan (position + 1) (some '?') rest).map (.anyChar :: ·)
  | '*' :: '*' :: '*' :: _ => .error ⟨position + 2, .tooManyAsterisks⟩
  | '*' :: '*' :: rest =>
    if previous = none ∨ previous = some '/' then
      match rest with
      | [] => .ok [.anyLevels]
      | '/' :: rest => (scan (position + 3) (some '/') rest).map (.anyLevels :: ·)
      | _ :: _ => .error ⟨position + 2, .partialLevels⟩
    else .error ⟨position - 1, .partialLevels⟩
  | '*' :: rest => (scan (position + 1) (some '*') rest).map (.anySequence :: ·)
  | '[' :: '!' :: inner =>
    match h : classBody? inner with
    | none => .error ⟨position, .unclosedClass⟩
    | some (body, rest) =>
      have := length_lt_of_classBody? h
      (scan (position + 3 + body.length) (some ']') rest).map (.except (classItems body) :: ·)
  | '[' :: inner =>
    match h : classBody? inner with
    | none => .error ⟨position, .unclosedClass⟩
    | some (body, rest) =>
      have := length_lt_of_classBody? h
      (scan (position + 2 + body.length) (some ']') rest).map (.within (classItems body) :: ·)
  | c :: rest => (scan (position + 1) (some c) rest).map (.literal c :: ·)
termination_by t.length
decreasing_by all_goals (simp only [List.length_cons] at *; omega)

structure Pattern where
  tokens : List Token
  deriving DecidableEq, Repr

namespace Pattern

def parse (t : Text) : Except PatternError Pattern := (scan 0 none t).map Pattern.mk

def literal? (pattern : Pattern) : Option Text :=
  pattern.tokens.mapM fun
    | .literal c => some c
    | _ => none

def spansLevels (pattern : Pattern) : Bool := .anyLevels ∈ pattern.tokens

/-- Whether a pattern begins with a full stop of its own. -/
def beginsWithDot (pattern : Pattern) : Bool := pattern.tokens.head? = some (.literal '.')

/-! ## Matching -/

def someEnd (rest : Text → Bool) : Text → Bool
  | [] => rest []
  | c :: t => rest (c :: t) || someEnd rest t

/-- Whether one character satisfies `p` and what follows it satisfies `rest`. -/
def oneThen (p : Char → Bool) (rest : Text → Bool) : Text → Bool
  | [] => false
  | c :: t => p c && rest t

def matchTokens : List Token → Text → Bool
  | [] => (·.isEmpty)
  | .literal c :: tokens => oneThen (· = c) (matchTokens tokens)
  | .anyChar :: tokens => oneThen (fun _ => true) (matchTokens tokens)
  | .anySequence :: tokens => someEnd (matchTokens tokens)
  | .anyLevels :: tokens => someEnd (matchTokens tokens)
  | .within items :: tokens => oneThen (fun c => items.any (·.contains c)) (matchTokens tokens)
  | .except items :: tokens =>
    oneThen (fun c => ! items.any (·.contains c)) (matchTokens tokens)

def accepts (pattern : Pattern) (name : Text) : Bool := matchTokens pattern.tokens name

end Pattern

end Wildcard

end ManualPages
