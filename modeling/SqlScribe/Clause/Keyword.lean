import SqlScribe.Text.Case
import SqlScribe.Text.Class

/-!
# Keywords

A keyword is recognised at a place of a text without regard to ASCII case. It never
starts inside an identifier or behind a dot, a space in its word stands for any
non-empty run of blanks, and one of the characters it asks for has to follow, so it
is never the last thing in a text.
-/

namespace SqlScribe

/-- Characters an identifier may be made of. -/
def isIdentifierChar (c : Char) : Bool :=
  isAlphanumeric c || c == '_' || c == '@' || c == '#' || c == '$'

/-- A word to recognise, in capitals, and what may follow it. -/
structure Keyword where
  word : Text
  /-- A blank may follow. -/
  blankMayFollow : Bool
  /-- Other characters that may follow. -/
  mayFollow : List Char
deriving DecidableEq, Repr

namespace Keyword

/-- The keyword of a word in any case. -/
def ofWord (word : Text) (blankMayFollow : Bool) (mayFollow : List Char) : Keyword :=
  ⟨word.uppercase, blankMayFollow, mayFollow⟩

/-- What remains of a text behind a word it begins with. -/
def after? : (word text : Text) → Option Text
  | [], t => some t
  | _ :: _, [] => none
  | e :: w, c :: t =>
      if e == ' ' then
        if isBlank c then after? w (t.dropWhile isBlank) else none
      else if e == c.toUpper then after? w t
      else none

/-- Whether a keyword may start behind this character; `none` is the start of the text. -/
def mayStartAfter : Option Char → Bool
  | none => true
  | some c => !isIdentifierChar c && c != '.'

/-- Whether this character may follow the keyword. -/
def accepts (k : Keyword) (c : Char) : Bool :=
  (k.blankMayFollow && isBlank c) || k.mayFollow.contains c

/-- How many characters the keyword takes at the start of `t`, where `before` is the
character in front of `t`. -/
def length? (k : Keyword) (before : Option Char) (t : Text) : Option Nat :=
  if mayStartAfter before then
    match after? k.word t with
    | some (c :: r) => if k.accepts c then some (t.length - (c :: r).length) else none
    | _ => none
  else none

/-- How many characters the keyword takes at position `p` of a text. -/
def lengthAt? (k : Keyword) (t : Text) (p : Nat) : Option Nat :=
  k.length? (if p = 0 then none else t[p - 1]?) (t.drop p)

end Keyword

end SqlScribe
