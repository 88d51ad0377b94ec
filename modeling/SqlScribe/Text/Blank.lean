import SqlScribe.Text.Basic

/-!
# Blank characters and layout

A blank is a character of the Unicode property `White_Space`. The words of a text
are its longest runs without a blank, and `collapse` writes them with one space
between neighbours: the layout that every statement is brought to.
-/

namespace SqlScribe

/-- The characters of the property `White_Space`. -/
def isBlank (c : Char) : Bool :=
  let n := c.toNat
  (9 ≤ n && n ≤ 13) || n == 32 || n == 0x85 || n == 0xA0 || n == 0x1680
    || (0x2000 ≤ n && n ≤ 0x200A) || n == 0x2028 || n == 0x2029 || n == 0x202F
    || n == 0x205F || n == 0x3000

namespace Text

/-- The text without the blanks at its start. -/
def trimStart (t : Text) : Text := t.dropWhile isBlank

/-- The text without the blanks at its end. -/
def trimEnd (t : Text) : Text := dropEnd isBlank t

/-- The text without the blanks at both ends. -/
def trim (t : Text) : Text := trimEnd (trimStart t)

/-- Whether nothing but blanks stands in the text. -/
def isAllBlank (t : Text) : Bool := t.all isBlank

/-- The longest runs of characters that are not blank. -/
def words (t : Text) : List Text := (cut isBlank t).filter fun w => !w.isEmpty

/-- The words with one space between neighbours. -/
def collapse (t : Text) : Text := join [' '] (words t)

end Text

end SqlScribe
