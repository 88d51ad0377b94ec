import SqlScribe.Dialect.Call
import SqlScribe.Dialect.Pipeline

/-!
# The Sybase dialect

Comments and batch separators go, types take their canonical names, functions become
what the engine has for them, brackets around names go, and a `TOP` count moves to the
end as a `LIMIT`.
-/

namespace SqlScribe

namespace Sybase

open Pattern

/-- The type `TEXT` for a temporal type; a name that a parenthesis follows is the call of a
function and stays. -/
def temporalType (m : Match) : Text :=
  match m.group? 1 with
  | some _ => m.text
  | none => "TEXT"

/-- The names of the parts of a date that a query may ask for. A name comes before its own
beginnings. -/
def dateParts : List Text := [
  "YEAR", "YYYY", "YY", "MONTH", "MINUTE", "MM", "MI", "M", "N", "DAY", "DD", "D", "HOUR",
  "HH", "SECOND", "SS", "S"]

/-- How a part of a date is written in a format of `strftime`. -/
def partFormat (part : Text) : Text :=
  if ["YEAR".toList, "YYYY".toList, "YY".toList].contains part then "%Y"
  else if ["MONTH".toList, "MM".toList, "M".toList].contains part then "%m"
  else if ["DAY".toList, "DD".toList, "D".toList].contains part then "%d"
  else if ["HOUR".toList, "HH".toList].contains part then "%H"
  else if ["MINUTE".toList, "MI".toList, "N".toList].contains part then "%M"
  else "%S"

/-- A part of a date, by its format. -/
def datePart (m : Match) : Text :=
  "strftime('" ++ partFormat (m.group 1).asciiUpper ++ "', " ++ m.group 2 ++ ")"

/-- `DISTINCT`, a count and the blanks behind it at the start of a `SELECT`. -/
def topCount : Pattern :=
  anchor .textStart ++ opt (group 1 (letters "DISTINCT" ++ blanks1)) ++ letters "TOP"
    ++ blanks1 ++ group 2 (run1 .decimal) ++ blanks1

/-- `TOP n` at the start of the columns becomes `LIMIT n`, unless the statement has a
`LIMIT` of its own, which then stays. -/
def topToLimit? (o : Outline) : Option Outline :=
  match o.body? .select with
  | none => none
  | some body =>
    match topCount.matchAt? none body with
    | none => none
    | some m =>
        let selected := o.edit .select fun _ => m.group 1 ++ m.after
        some (if o.has .limit then selected else selected.set .limit (m.group 2))

/-- The rules for Sybase. -/
def pipeline : Pipeline where
  lexical := [
    ⟨"sybase.line_comments", literal "--" ++ run (.other (.among ['\n'])), fun _ => []⟩,
    ⟨"sybase.block_comments", literal "/*" ++ lazyStar (one .any) ++ literal "*/",
      fun _ => []⟩,
    ⟨"sybase.go_separators",
      anchor .lineStart ++ blanks ++ letters "GO" ++ many .blank ++ anchor .lineEnd,
      fun _ => []⟩]
  types := [
    ⟨"sybase.char_types", wordOf ["NVARCHAR", "VARCHAR", "NCHAR", "CHAR"], fun _ => "TEXT"⟩,
    ⟨"sybase.binary_types", wordOf ["IMAGE", "VARBINARY", "BINARY"], fun _ => "BLOB"⟩,
    ⟨"sybase.integer_types", wordOf ["SMALLINT", "TINYINT", "BIGINT"], fun _ => "INTEGER"⟩,
    ⟨"sybase.real_types",
      edge ++ oneOf [
          letters "DOUBLE" ++ blanks1 ++ letters "PRECISION", letters "SMALLMONEY",
          letters "MONEY", letters "NUMERIC", letters "DECIMAL", letters "FLOAT"] ++ edge,
      fun _ => "REAL"⟩,
    ⟨"sybase.temporal_types",
      wordOf ["SMALLDATETIME", "DATETIME", "TIMESTAMP", "DATE", "TIME"]
        ++ opt (group 1 (blanks ++ literal "(")),
      temporalType⟩]
  functions := [
    ⟨"sybase.isnull", opening "ISNULL", fun _ => "IFNULL("⟩,
    ⟨"sybase.getdate", opening "GETDATE" ++ blanks ++ literal ")",
      fun _ => "datetime('now')"⟩,
    ⟨"sybase.datepart",
      opening "DATEPART" ++ blanks ++ group 1 (oneOf (dateParts.map letters)) ++ blanks
        ++ literal "," ++ argument 2 noParen ++ literal ")",
      datePart⟩,
    ⟨"sybase.substring", opening "SUBSTRING", fun _ => "substr("⟩,
    ⟨"sybase.len", opening "LEN", fun _ => "length("⟩,
    ⟨"sybase.charindex", call2 "CHARINDEX" noParenComma,
      fun m => "instr(" ++ m.group 2 ++ ", " ++ m.group 1 ++ ")"⟩,
    ⟨"sybase.left", call2 "LEFT" noParenComma,
      fun m => "substr(" ++ m.group 1 ++ ", 1, " ++ m.group 2 ++ ")"⟩,
    ⟨"sybase.right", call2 "RIGHT" noParenComma,
      fun m => "substr(" ++ m.group 1 ++ ", -" ++ m.group 2 ++ ")"⟩,
    ⟨"sybase.patindex", opening "PATINDEX" ++ run noParen ++ literal ")", fun _ => "0"⟩,
    ⟨"sybase.identity",
      opening "IDENTITY" ++ blanks ++ run1 .decimal ++ blanks ++ literal "," ++ blanks
        ++ run1 .decimal ++ blanks ++ literal ")",
      fun _ => "PRIMARY KEY AUTOINCREMENT"⟩,
    ⟨"sybase.bracket_identifiers",
      literal "[" ++ group 1 (run1 (.other (.among [']']))) ++ literal "]",
      fun m => m.group 1⟩]
  shape := [⟨"sybase.top_to_limit", topToLimit?⟩]

end Sybase

end SqlScribe
