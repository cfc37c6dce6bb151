import ManualPages.Text.Basic

/-! # Octets

File names and file contents are octets; a text is written to them in UTF-8 and read
from them in one of two ways.

* `encode` — the UTF-8 form of a text.
* `scan` — the characters of a sequence of octets, with a fault for each maximal
  ill-formed part.
* `decode?` — the text, if there is no fault.
* `decodeLossy` — the text with U+FFFD for each fault.
-/

namespace ManualPages

/-- A sequence of octets: the content of a file, the name of a file, a path. -/
abbrev Octets := List UInt8

namespace Octets

def encode (t : Text) : Octets := t.flatMap String.utf8EncodeChar

/-! ## Reading

A character of several octets is read one octet at a time.  Between its octets the
reader knows how many follow the next one, the range of the next one, and the bits
read so far.  The first continuation octet has a narrower range after some leading
octets, which shuts out overlong forms, surrogates and numbers above U+10FFFF. -/

structure Owed where
  more : Nat
  low : Nat
  high : Nat
  /-- The bits of the code point read so far. -/
  bits : Nat

/-- What an octet at the beginning of a character says. -/
inductive Start where
  | whole (c : Char)
  | leading (owed : Owed)
  | fault

def start (octet : UInt8) : Start :=
  let b := octet.toNat
  if b < 0x80 then .whole (Char.ofNat b)
  else if b < 0xC2 then .fault
  else if b < 0xE0 then .leading ⟨0, 0x80, 0xBF, b - 0xC0⟩
  else if b = 0xE0 then .leading ⟨1, 0xA0, 0xBF, 0⟩
  else if b = 0xED then .leading ⟨1, 0x80, 0x9F, 0xD⟩
  else if b < 0xF0 then .leading ⟨1, 0x80, 0xBF, b - 0xE0⟩
  else if b = 0xF0 then .leading ⟨2, 0x90, 0xBF, 0⟩
  else if b < 0xF4 then .leading ⟨2, 0x80, 0xBF, b - 0xF0⟩
  else if b = 0xF4 then .leading ⟨2, 0x80, 0x8F, 4⟩
  else .fault

/-- Reads the first octet of a character: what it settles, and what it leaves owed. -/
def begin (octet : UInt8) : List (Option Char) × Option Owed :=
  match start octet with
  | .whole c => ([some c], none)
  | .leading owed => ([], some owed)
  | .fault => ([none], none)

/-- Reads one octet.  An octet outside the range that is owed ends the started
    character as one fault and begins anew. -/
def step (pending : Option Owed) (octet : UInt8) : List (Option Char) × Option Owed :=
  match pending with
  | none => begin octet
  | some owed =>
    if owed.low ≤ octet.toNat ∧ octet.toNat ≤ owed.high then
      let bits := owed.bits * 64 + (octet.toNat - 0x80)
      match owed.more with
      | 0 => ([some (Char.ofNat bits)], none)
      | more + 1 => ([], some ⟨more, 0x80, 0xBF, bits⟩)
    else
      let (found, owes) := begin octet
      (none :: found, owes)

/-- The characters of a sequence of octets, `none` standing for each ill-formed part. -/
def scan (pending : Option Owed) : Octets → List (Option Char)
  | [] => if pending.isSome then [none] else []
  | octet :: rest => (step pending octet).1 ++ scan (step pending octet).2 rest

/-- The text that a sequence of octets is the UTF-8 form of, if it is one. -/
def decode? (octets : Octets) : Option Text := (scan none octets).mapM id

/-- The text of a sequence of octets, with U+FFFD for each ill-formed part. -/
def decodeLossy (octets : Octets) : Text := (scan none octets).map (·.getD '\uFFFD')

end Octets

end ManualPages
