import ManualPages.Text.Basic

/-! # Numerals

Widths are written as a sign, which may be missing, and at least one ASCII digit, any
number of leading zeros included.  The value must fit in 32 bits with sign.

* `digits?` — the number that a run of digits denotes.
* `width?` — the integer that a numeral with a sign denotes, if it is in range.
-/

namespace ManualPages.Text

/-- The value of a decimal digit, `0` to `9` only. -/
def digit? (c : Char) : Option Nat :=
  if '0' ≤ c ∧ c ≤ '9' then some (c.toNat - '0'.toNat) else none

/-- The number that `t`, read after digits of value `high`, denotes. -/
def digitsFrom? (high : Nat) : Text → Option Nat
  | [] => some high
  | c :: rest => (digit? c).bind fun d => digitsFrom? (high * 10 + d) rest

/-- The number that a run of one or more digits denotes. -/
def digits? (t : Text) : Option Nat := if t.isEmpty then none else digitsFrom? 0 t

/-- The least width that can be set, `-2 ^ 31`. -/
def leastWidth : Int := -2147483648

/-- The greatest width that can be set, `2 ^ 31 - 1`. -/
def greatestWidth : Int := 2147483647

def integer? : Text → Option Int
  | '+' :: rest => (digits? rest).map Int.ofNat
  | '-' :: rest => (digits? rest).map fun n => -Int.ofNat n
  | t => (digits? t).map Int.ofNat

/-- The integer that a numeral denotes, if it fits in 32 bits with sign. -/
def width? (t : Text) : Option Int :=
  (integer? t).filter fun n => leastWidth ≤ n && n ≤ greatestWidth

end ManualPages.Text
