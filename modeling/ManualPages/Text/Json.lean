import ManualPages.Text.Octets

/-! # JSON

Values written as JSON over several lines, two spaces for each level.  A path can be
written only if it is a text; what was written before one that is not stays written.

* `Json` — the values.
* `Draft` — a text, and whether it was finished.
* `Json.escape` — a text between quotes.
* `Json.write`, `Json.pretty` — a value at a depth, and at the top.
-/

namespace ManualPages

/-- A value that can be written as JSON. -/
inductive Json where
  | text (t : Text)
  /-- A path, which has to be a text to be written. -/
  | path (octets : Octets)
  | number (n : Int)
  | flag (b : Bool)
  | list (items : List Json)
  | object (fields : List (Text × Json))

/-- What has been written so far, and whether writing came to its end. -/
structure Draft where
  written : Text
  complete : Bool := true

def Draft.append (first second : Draft) : Draft :=
  if first.complete then ⟨first.written ++ second.written, second.complete⟩ else first

instance : Append Draft := ⟨Draft.append⟩

namespace Json

/-! ## Texts -/

def hexDigit (n : Nat) : Char := Nat.digitChar n

/-- The form of a character between quotes: quotes, backslashes and control characters
    are escaped, everything else is written as it is. -/
def escapeChar (c : Char) : Text :=
  if c = '"' then ['\\', '"']
  else if c = '\\' then ['\\', '\\']
  else if c = '\x08' then ['\\', 'b']
  else if c = '\t' then ['\\', 't']
  else if c = '\n' then ['\\', 'n']
  else if c = '\x0c' then ['\\', 'f']
  else if c = '\r' then ['\\', 'r']
  else if c.toNat < 0x20 then
    ['\\', 'u', '0', '0', hexDigit (c.toNat / 16), hexDigit (c.toNat % 16)]
  else [c]

def escape (t : Text) : Text := '"' :: t.flatMap escapeChar ++ ['"']

/-! ## Values -/

def newLine (depth : Nat) : Text := '\n' :: List.replicate (2 * depth) ' '

mutual

def write (depth : Nat) : Json → Draft
  | .text t => ⟨escape t, true⟩
  | .path octets =>
    match octets.decode? with
    | some t => ⟨escape t, true⟩
    | none => ⟨[], false⟩
  | .number n => ⟨Text.ofInt n, true⟩
  | .flag b => ⟨if b then "true".toList else "false".toList, true⟩
  | .list [] => ⟨['[', ']'], true⟩
  | .list (item :: items) =>
    ⟨'[' :: newLine (depth + 1), true⟩ ++ write (depth + 1) item
      ++ writeItems (depth + 1) items ++ ⟨newLine depth ++ [']'], true⟩
  | .object [] => ⟨['\x7b', '\x7d'], true⟩
  | .object ((name, value) :: fields) =>
    ⟨'\x7b' :: newLine (depth + 1) ++ escape name ++ [':', ' '], true⟩
      ++ write (depth + 1) value ++ writeFields (depth + 1) fields
      ++ ⟨newLine depth ++ ['\x7d'], true⟩

def writeItems (depth : Nat) : List Json → Draft
  | [] => ⟨[], true⟩
  | item :: items =>
    ⟨',' :: newLine depth, true⟩ ++ write depth item ++ writeItems depth items

def writeFields (depth : Nat) : List (Text × Json) → Draft
  | [] => ⟨[], true⟩
  | (name, value) :: fields =>
    ⟨',' :: newLine depth ++ escape name ++ [':', ' '], true⟩ ++ write depth value
      ++ writeFields depth fields

end

def pretty (value : Json) : Draft := write 0 value ++ ⟨['\n'], true⟩

end Json

end ManualPages
