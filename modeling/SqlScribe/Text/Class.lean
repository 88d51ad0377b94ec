import SqlScribe.Text.Alphabetic
import SqlScribe.Text.Numeric
import SqlScribe.Text.Recent
import SqlScribe.Text.Blank

/-!
# Classes of characters

The classes that keyword and pattern matching speak of. ASCII characters are
decided without a table; the others by the spans of their Unicode properties.

Identifiers follow version 17.0 of Unicode, patterns follow version 16.0. So a character
that came with version 17.0 may belong to an identifier, but to a pattern it is neither a
digit nor a word character.
-/

namespace SqlScribe

/-- Version 16.0 of Unicode does not know the character. -/
def isRecent (c : Char) : Bool := 0x80 ≤ c.toNat && recentSpans.has c

/-- The letters: the property `Alphabetic`. -/
def isAlphabetic (c : Char) : Bool :=
  c.isAlpha || (0x80 ≤ c.toNat && alphabeticSpans.has c)

/-- Letters and numbers of every kind. -/
def isAlphanumeric (c : Char) : Bool :=
  isAlphabetic c || c.isDigit
    || (0x80 ≤ c.toNat && (decimalSpans.has c || numberSpans.has c))

/-- The decimal digits of every script, as patterns know them: the category `Nd`. -/
def isDecimal (c : Char) : Bool :=
  c.isDigit || (0x80 ≤ c.toNat && decimalSpans.has c && !isRecent c)

/-- The characters of words, as patterns know them: letters, marks, decimal digits,
connecting punctuation such as `_`, and the joiners. -/
def isWordChar (c : Char) : Bool :=
  c.isAlphanum || c == '_'
    || (0x80 ≤ c.toNat && !isRecent c
      && (alphabeticSpans.has c || decimalSpans.has c || joiningSpans.has c))

/-- The core library's digits are decimal digits. -/
theorem isDecimal_of_isDigit {c : Char} (h : c.isDigit = true) : isDecimal c = true := by
  simp [isDecimal, h]

/-- The core library's letters are letters. -/
theorem isAlphabetic_of_isAlpha {c : Char} (h : c.isAlpha = true) : isAlphabetic c = true := by
  simp [isAlphabetic, h]

end SqlScribe
