import SqlScribe.Text.Blank
import SqlScribe.Text.Case

/-!
# Questions and the words they mention

A question is kept as it was asked, and in lower case for looking up keywords. A
keyword of another script than ASCII counts wherever it stands, because Korean words
carry their particles without a space. An ASCII keyword has to begin where a word
begins, and no letter may follow it; a number may, as in `top5`.
-/

namespace SqlScribe

/-- A question without the blanks around it, and the same in lower case. -/
structure Question where
  asked : Text
  folded : Text
deriving DecidableEq, Repr

namespace Question

/-- The question a text asks. -/
def ofText (t : Text) : Question := ⟨t.trim, t.trim.lowercase⟩

/-- Whether the character belongs to an ASCII word. -/
def isWordPart (c : Char) : Bool := c.isAlphanum || c == '_'

/-- Whether the character goes on with an ASCII word as a letter. -/
def isLetterPart (c : Char) : Bool := c.isAlpha || c == '_'

/-- A keyword may stand between these characters. -/
def separates (before after : Option Char) : Bool :=
  !before.any isWordPart && !after.any isLetterPart

/-- Looks for a keyword from left to right and asks for each place where it is found
whether it stands on its own. The places do not overlap: the first `skip` characters
belong to a place that has been looked at. -/
def standsIn (k : Text) (before : Option Char) : (skip : Nat) → Text → Bool
  | skip, [] => skip == 0 && k.isEmpty && separates before none
  | skip + 1, c :: t => standsIn k (some c) skip t
  | 0, c :: t =>
      if k.isPrefixOf (c :: t) then
        separates before ((c :: t).drop k.length).head? ||
          standsIn k (some c) (k.length - 1) t
      else standsIn k (some c) 0 t

/-- Whether the question mentions a keyword. -/
def mentions (q : Question) (k : Text) : Bool :=
  if k.isAscii then standsIn k none 0 q.folded else Text.occursIn k q.folded

/-- Whether the question mentions one of several keywords. -/
def mentionsAny (q : Question) (ks : List Text) : Bool := ks.any q.mentions

end Question

end SqlScribe
