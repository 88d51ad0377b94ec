import SqlScribe.Text.Blank

/-!
# Statements

A statement is a text with the dialect it is written in and the hand it comes from.
`normalize` brings a text to its normal form: its words with single spaces between
them, and one `;` at the end. `segmentCount` counts the parts between semicolons
that are not blank, `normalize` keeps that number.
-/

namespace SqlScribe

/-- The dialects of SQL. The engine runs `canonical`; the other two are converted
before they run. -/
inductive Dialect where
  | canonical
  | hive
  | sybase
deriving DecidableEq, Repr

/-- A dialect that has to be converted before the engine can run it. -/
def Dialect.isAuxiliary : Dialect → Bool
  | canonical => false
  | hive | sybase => true

/-- The written name of a dialect. -/
def Dialect.name : Dialect → Text
  | canonical => "canonical"
  | hive => "hive"
  | sybase => "sybase"

/-- Who wrote a statement. No rule treats the three differently. -/
inductive Provenance where
  | ruleGenerated
  | modelGenerated
  | userSupplied
deriving DecidableEq, Repr

/-- The written name of a provenance. -/
def Provenance.name : Provenance → Text
  | ruleGenerated => "rule_generated"
  | modelGenerated => "model_generated"
  | userSupplied => "user_supplied"

/-- A text of SQL with its dialect and its provenance. -/
structure Statement where
  text : Text
  dialect : Dialect
  provenance : Provenance
deriving DecidableEq, Repr

namespace Statement

/-! ## Normal form -/

/-- The characters that may end a statement without being part of it. -/
def isTerminator (c : Char) : Bool := c == ';' || isBlank c

/-- The normal form of a statement's text: single spaces for layout, one `;` at the end. -/
def normalize (sql : Text) : Text :=
  Text.dropEnd isTerminator (Text.collapse sql) ++ [';']

/-- The number of parts between semicolons that hold more than blanks. -/
def segmentCount (sql : Text) : Nat :=
  ((Text.cut (· == ';') sql).filter fun s => !Text.isAllBlank s).length

end Statement

end SqlScribe
