import SqlScribe.Decimal.Single
import SqlScribe.Text.Basic

/-!
# JSON values

A JSON value as it stands in a document. Numbers are kept as they are written, objects
with their members in order and with repeated keys; what they mean is decided where a
value is read into something else. `Json.render` writes a value without spaces.
-/

namespace SqlScribe

/-- A JSON value. A string whose escapes leave half of a surrogate pair alone is well
formed, but there is no text it stands for. -/
inductive Json where
  | null
  | bool (b : Bool)
  /-- A number as it is written. -/
  | number (written : Text)
  | string (text : Option Text)
  | array (items : List Json)
  | object (members : List (Option Text × Json))
deriving Repr

namespace Json

/-- The string of a text. -/
def ofText (t : Text) : Json := .string (some t)

/-- A whole number. -/
def ofNat (n : Nat) : Json := .number (Text.ofNat n)

/-- A whole number with its sign. -/
def ofInt (n : Int) : Json := .number (Text.ofInt n)

/-- A number of single precision; `null` when it is not finite. -/
def ofSingle (x : Float32) : Json :=
  match singleText? x with
  | some t => .number t
  | none => .null

/-- The value, or `null` for a missing one. -/
def ofOption : Option Json → Json
  | some j => j
  | none => .null

/-- The object of these members. -/
def ofMembers (ms : List (Text × Json)) : Json :=
  .object (ms.map fun m => (some m.1, m.2))

/-! ## Writing -/

/-- The hexadecimal digit of a number below sixteen. -/
def hexDigit (n : Nat) : Char := if n < 10 then Char.ofNat (48 + n) else Char.ofNat (87 + n)

/-- A character as it is written in a string. -/
def escape (c : Char) : Text :=
  if c == '"' then ['\\', '"']
  else if c == '\\' then ['\\', '\\']
  else if c == '\n' then ['\\', 'n']
  else if c == '\r' then ['\\', 'r']
  else if c == '\t' then ['\\', 't']
  else if c.toNat == 8 then ['\\', 'b']
  else if c.toNat == 12 then ['\\', 'f']
  else if c.toNat < 32 then
    ['\\', 'u', '0', '0', hexDigit (c.toNat / 16), hexDigit (c.toNat % 16)]
  else [c]

/-- A text in quotes. -/
def quote (t : Text) : Text := '"' :: t.flatMap escape ++ ['"']

mutual

/-- The value written without spaces. -/
def render : Json → Text
  | null => "null"
  | bool b => if b then "true".toList else "false".toList
  | number w => w
  | string t => quote (t.getD [])
  | array items => '[' :: renderItems items ++ [']']
  | object members => '\x7b' :: renderMembers members ++ ['\x7d']

/-- The values with commas between them. -/
def renderItems : List Json → Text
  | [] => []
  | [j] => render j
  | j :: js => render j ++ ',' :: renderItems js

/-- The members with commas between them. -/
def renderMembers : List (Option Text × Json) → Text
  | [] => []
  | [(k, j)] => quote (k.getD []) ++ ':' :: render j
  | (k, j) :: ms => quote (k.getD []) ++ ':' :: render j ++ ',' :: renderMembers ms

end

end Json

end SqlScribe
