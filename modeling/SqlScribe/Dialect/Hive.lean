import SqlScribe.Dialect.Call
import SqlScribe.Dialect.Pipeline

/-!
# The Hive dialect

Comments go, types take their canonical names, and functions become what the engine
has for them.
-/

namespace SqlScribe

namespace Hive

open Pattern

/-- The arguments joined by `||`; a single argument stays as it is. -/
def concat (m : Match) : Text :=
  let arguments := Text.arguments (m.group 1)
  if arguments.length < 2 then m.text
  else "(" ++ Text.join " || " arguments ++ ")"

/-- The seconds of a moment, of now when there is none. -/
def unixTimestamp (m : Match) : Text :=
  match m.group 1 with
  | [] => "strftime('%s', 'now')"
  | value => "strftime('%s', " ++ value ++ ")"

/-- How a part of a date is written in a format of `strftime`. -/
def partFormat (part : Text) : Text :=
  if part = "year".toList then "%Y" else if part = "month".toList then "%m" else "%d"

/-- A part of a date, by its format. -/
def datePart (m : Match) : Text :=
  "strftime('" ++ partFormat (m.group 1).asciiLower ++ "', " ++ m.group 2 ++ ")"

/-- The text of the first group. -/
def unwrap (m : Match) : Text := m.group 1

/-- The rules for Hive. -/
def pipeline : Pipeline where
  lexical := [
    ⟨"hive.line_comments", literal "--" ++ run (.other (.among ['\n'])), fun _ => []⟩,
    ⟨"hive.block_comments", literal "/*" ++ lazyStar (one .any) ++ literal "*/", fun _ => []⟩]
  types := [
    ⟨"hive.string_type", word "STRING", fun _ => "TEXT"⟩,
    ⟨"hive.bigint_type", word "BIGINT", fun _ => "INTEGER"⟩,
    ⟨"hive.double_type", word "DOUBLE", fun _ => "REAL"⟩]
  functions := [
    ⟨"hive.concat", opening "concat" ++ group 1 (run noParen) ++ literal ")", concat⟩,
    ⟨"hive.collect_list", opening "collect_list", fun _ => "group_concat("⟩,
    ⟨"hive.lateral_view",
      blanks ++ edge ++ letters "LATERAL" ++ blanks1 ++ letters "VIEW" ++ blanks1
        ++ letters "explode" ++ blanks ++ literal "(" ++ run (.other (.among [')']))
        ++ literal ")" ++ blanks1 ++ run1 .word ++ blanks1 ++ letters "AS" ++ blanks1
        ++ run1 .word,
      fun _ => []⟩,
    ⟨"hive.from_unixtime", call1 "from_unixtime" noParenComma,
      fun m => "datetime(" ++ m.group 1 ++ ", 'unixepoch')"⟩,
    ⟨"hive.unix_timestamp",
      opening "unix_timestamp" ++ blanks ++ group 1 (lazyStar (one noParen)) ++ blanks
        ++ literal ")",
      unixTimestamp⟩,
    ⟨"hive.date_parts",
      edge ++ group 1 (oneOf [letters "year", letters "month", letters "day"]) ++ blanks
        ++ literal "(" ++ argument 2 noParen ++ literal ")",
      datePart⟩,
    ⟨"hive.backtick_identifiers",
      literal "\x60" ++ group 1 (run (.other (.among ['\x60']))) ++ literal "\x60", unwrap⟩]
  shape := []

end Hive

end SqlScribe
