import SqlScribe.Pattern.Search

/-!
# Calls and their arguments

Patterns for the call of a function, and the arguments of a call as texts. The commas
between arguments are those outside single quotes.
-/

namespace SqlScribe

namespace Pattern

/-- Every character but parentheses. -/
def noParen : CharClass := .other (.among ['(', ')'])

/-- Every character but parentheses and commas. -/
def noParenComma : CharClass := .other (.among ['(', ')', ','])

/-- A word on its own, in any case. -/
def word (t : Text) : Pattern := edge ++ letters t ++ edge

/-- One of several words on its own, in any case. -/
def wordOf (ts : List Text) : Pattern := edge ++ oneOf (ts.map letters) ++ edge

/-- The name of a function and the parenthesis that opens its arguments. -/
def opening (name : Text) : Pattern := edge ++ letters name ++ blanks ++ literal "("

/-- An argument with the blanks around it, captured without them. Of an argument of nothing
but blanks the last one is captured. -/
def argument (n : Nat) (k : CharClass) : Pattern :=
  alt (blanks ++ group n (lazy1 k) ++ blanks) (many .blank ++ group n (one .blank))

/-- A call with one argument. -/
def call1 (name : Text) (k : CharClass) : Pattern :=
  opening name ++ argument 1 k ++ literal ")"

/-- A call with two arguments. -/
def call2 (name : Text) (k : CharClass) : Pattern :=
  opening name ++ argument 1 k ++ literal "," ++ argument 2 k ++ literal ")"

end Pattern

namespace Text

/-- The pieces of a text between its commas outside single quotes; `quoted` says whether
the text begins inside a quotation. -/
def cutUnquoted (quoted : Bool) : Text → List Text
  | [] => [[]]
  | c :: t =>
      if c == ',' && !quoted then [] :: cutUnquoted quoted t
      else
        match cutUnquoted (if c == '\'' then !quoted else quoted) t with
        | [] => [[c]]
        | s :: ss => (c :: s) :: ss

/-- The arguments of a list, without the blanks around them. -/
def arguments (list : Text) : List Text := (cutUnquoted false list).map trim

end Text

end SqlScribe
