import SqlScribe.Json.Basic

/-!
# Reading JSON

The strict grammar of JSON: four kinds of blanks, no leading zeros, no commas at an end,
no control characters in strings, nothing but blanks behind the value. Reading looks at
the form alone. `Json.generic?` then says which documents are values in their own right,
and orders the members of their objects.
-/

namespace SqlScribe

namespace Json

/-! ## Leaves -/

/-- The blanks of JSON. -/
def isSpace (c : Char) : Bool := c == ' ' || c == '\n' || c == '\t' || c == '\r'

/-- The text without the blanks at its start. -/
def skipSpace (t : Text) : Text := t.dropWhile isSpace

/-- The value of a hexadecimal digit. -/
def hexValue? (c : Char) : Option Nat :=
  if '0' ≤ c ∧ c ≤ '9' then some (c.toNat - 48)
  else if 'a' ≤ c ∧ c ≤ 'f' then some (c.toNat - 87)
  else if 'A' ≤ c ∧ c ≤ 'F' then some (c.toNat - 55)
  else none

/-- The code unit of four hexadecimal digits. -/
def hexUnit? (a b c d : Char) : Option Nat :=
  match hexValue? a, hexValue? b, hexValue? c, hexValue? d with
  | some a, some b, some c, some d => some (((a * 16 + b) * 16 + c) * 16 + d)
  | _, _, _, _ => none

/-- The character that one letter behind a backslash stands for. -/
def escaped? (c : Char) : Option Nat :=
  if c == '"' || c == '\\' || c == '/' then some c.toNat
  else if c == 'b' then some 8
  else if c == 'f' then some 12
  else if c == 'n' then some 10
  else if c == 'r' then some 13
  else if c == 't' then some 9
  else none

/-- The code points and surrogates of a string up to its closing quote, and the text behind
it. -/
def units? : Text → Option (List Nat × Text)
  | [] => none
  | '"' :: t => some ([], t)
  | '\\' :: 'u' :: a :: b :: c :: d :: t =>
      match hexUnit? a b c d, units? t with
      | some n, some (ns, r) => some (n :: ns, r)
      | _, _ => none
  | '\\' :: e :: t =>
      match escaped? e, units? t with
      | some n, some (ns, r) => some (n :: ns, r)
      | _, _ => none
  | c :: t =>
      if c.toNat < 32 || c == '\\' then none
      else
        match units? t with
        | some (ns, r) => some (c.toNat :: ns, r)
        | none => none

/-- The text of code points in which surrogates come in pairs; there is none when one
stands alone. -/
def pairUnits? : List Nat → Option Text
  | [] => some []
  | h :: l :: ns =>
      if 0xD800 ≤ h ∧ h ≤ 0xDBFF then
        if 0xDC00 ≤ l ∧ l ≤ 0xDFFF then
          (pairUnits? ns).map
            (Char.ofNat ((h - 0xD800) * 0x400 + (l - 0xDC00) + 0x10000) :: ·)
        else none
      else if 0xDC00 ≤ h ∧ h ≤ 0xDFFF then none
      else (pairUnits? (l :: ns)).map (Char.ofNat h :: ·)
  | [n] => if 0xD800 ≤ n ∧ n ≤ 0xDFFF then none else some [Char.ofNat n]

/-- Digits at the start of a text, at least one, and the text behind them. -/
def digits1? (t : Text) : Option (Text × Text) :=
  let ds := t.takeWhile Char.isDigit
  if ds.isEmpty then none else some (ds, t.dropWhile Char.isDigit)

/-- The text behind the fraction of a number, which may be missing. -/
def afterFraction? : Text → Option Text
  | '.' :: t => (digits1? t).map Prod.snd
  | t => some t

/-- The text behind a sign, which may be missing. -/
def afterSign : Text → Text
  | '+' :: t => t
  | '-' :: t => t
  | t => t

/-- The text behind the exponent of a number, which may be missing. -/
def afterExponent? : Text → Option Text
  | 'e' :: t => (digits1? (afterSign t)).map Prod.snd
  | 'E' :: t => (digits1? (afterSign t)).map Prod.snd
  | t => some t

/-- The text behind the number it begins with. -/
def afterNumber? (t : Text) : Option Text :=
  let unsigned := match t with
    | '-' :: r => r
    | r => r
  match digits1? unsigned with
  | none => none
  | some (ds, r) =>
    if ds.head? = some '0' ∧ 1 < ds.length then none
    else (afterFraction? r).bind afterExponent?

/-- The number a text begins with, as it is written, and the text behind it. -/
def readNumber? (t : Text) : Option (Json × Text) :=
  (afterNumber? t).map fun r => (.number (t.take (t.length - r.length)), r)

/-! ## Values -/

mutual

/-- The value a text begins with and the text behind it. Arrays and objects are entered at
most `fuel` times. -/
def readValue? (fuel : Nat) (t : Text) : Option (Json × Text) :=
  match fuel with
  | 0 => none
  | fuel + 1 =>
    match skipSpace t with
    | 'n' :: 'u' :: 'l' :: 'l' :: r => some (.null, r)
    | 't' :: 'r' :: 'u' :: 'e' :: r => some (.bool true, r)
    | 'f' :: 'a' :: 'l' :: 's' :: 'e' :: r => some (.bool false, r)
    | '"' :: r => (units? r).map fun s => (.string (pairUnits? s.1), s.2)
    | '[' :: r =>
      match skipSpace r with
      | ']' :: r => some (.array [], r)
      | r => (readItems? fuel r).map fun s => (.array s.1, s.2)
    | '\x7b' :: r =>
      match skipSpace r with
      | '\x7d' :: r => some (.object [], r)
      | r => (readMembers? fuel r).map fun s => (.object s.1, s.2)
    | r => readNumber? r

/-- The items of an array up to its closing bracket, and the text behind it. -/
def readItems? (fuel : Nat) (t : Text) : Option (List Json × Text) :=
  match fuel with
  | 0 => none
  | fuel + 1 =>
    match readValue? fuel t with
    | none => none
    | some (j, r) =>
      match skipSpace r with
      | ']' :: r => some ([j], r)
      | ',' :: r => (readItems? fuel r).map fun s => (j :: s.1, s.2)
      | _ => none

/-- The members of an object up to its closing brace, and the text behind it. -/
def readMembers? (fuel : Nat) (t : Text) : Option (List (Option Text × Json) × Text) :=
  match fuel with
  | 0 => none
  | fuel + 1 =>
    match skipSpace t with
    | '"' :: r =>
      match units? r with
      | none => none
      | some (ns, r) =>
        match skipSpace r with
        | ':' :: r =>
          match readValue? fuel r with
          | none => none
          | some (j, r) =>
            match skipSpace r with
            | '\x7d' :: r => some ([(pairUnits? ns, j)], r)
            | ',' :: r => (readMembers? fuel r).map fun s => ((pairUnits? ns, j) :: s.1, s.2)
            | _ => none
        | _ => none
    | _ => none

end

/-- The value a document consists of. Every second step takes a character, so twice the
length of the document is fuel enough. -/
def parse? (document : Text) : Option Json :=
  match readValue? (2 * document.length + 2) document with
  | some (j, r) => if (skipSpace r).isEmpty then some j else none
  | none => none

end Json

end SqlScribe
