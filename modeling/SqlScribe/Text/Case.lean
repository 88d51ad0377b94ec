import SqlScribe.Text.Basic
import SqlScribe.Text.Cased
import SqlScribe.Text.CaseMaps

/-!
# Lower and upper case

The full Unicode case maps of texts. They work character by character, with one
exception: a capital sigma becomes the final form `ς` where it ends a word, and `σ`
elsewhere.
-/

namespace SqlScribe

/-- Whether the first character that is not case-ignorable is a cased one. -/
def meetsCased (t : Text) : Bool :=
  match t.dropWhile caseIgnorableSpans.has with
  | [] => false
  | c :: _ => casedSpans.has c

/-- The lower case of one character that is not a capital sigma. -/
def lowerOf (c : Char) : Text :=
  if c.toNat < 0x80 then [c.toLower]
  else if c == 'İ' then ['i', Char.ofNat 0x307]
  else match CaseRun.image? lowerRuns c.toNat with
    | some n => [Char.ofNat n]
    | none => [c]

/-- The upper case of one character. -/
def upperOf (c : Char) : Text :=
  if c.toNat < 0x80 then [c.toUpper]
  else match upperExpansions.lookup c.toNat with
    | some ns => ns.map Char.ofNat
    | none =>
      match CaseRun.image? upperRuns c.toNat with
      | some n => [Char.ofNat n]
      | none => [c]

namespace Text

/-- The lower case of a text that follows the characters `before`, the nearest first. -/
def lowerAfter (before : Text) : Text → Text
  | [] => []
  | c :: t =>
      (if c == 'Σ' then [if meetsCased before && !meetsCased t then 'ς' else 'σ']
       else lowerOf c) ++ lowerAfter (c :: before) t

/-- The text in lower case. -/
def lowercase (t : Text) : Text := lowerAfter [] t

/-- The text in capitals. -/
def uppercase (t : Text) : Text := t.flatMap upperOf

end Text

end SqlScribe
