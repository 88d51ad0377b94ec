import SqlScribe.Text.Blank

/-!
# Columns

A column has a name, a type as it was declared, and two marks. The declared type is
free text; the kind of column it declares is what the library works with.
-/

namespace SqlScribe

/-- The kinds of columns. -/
inductive ColumnKind where
  /-- Whole numbers. -/
  | integer
  /-- Numbers with a fraction. -/
  | real
  /-- Text, and everything that is not known. -/
  | text
  /-- Days and moments, written as text. -/
  | date
  /-- Bytes. -/
  | blob
deriving DecidableEq, Repr

namespace ColumnKind

/-- The written name of a kind. -/
def name : ColumnKind → Text
  | integer => "INTEGER"
  | real => "REAL"
  | text => "TEXT"
  | date => "DATE"
  | blob => "BLOB"

/-- Whether a number can be compared with the column without quotes. -/
def isNumeric : ColumnKind → Bool
  | integer | real => true
  | _ => false

/-- The declared names of the kinds other than text, in capitals. -/
def declaredNames : List (ColumnKind × List Text) := [
  (integer, ["INTEGER", "INT", "BIGINT", "SMALLINT", "TINYINT"]),
  (real, ["REAL", "DOUBLE", "DOUBLE PRECISION", "FLOAT", "NUMERIC", "DECIMAL", "MONEY"]),
  (date, ["DATE", "DATETIME", "TIMESTAMP", "TIME", "SMALLDATETIME"]),
  (blob, ["BLOB", "BINARY", "VARBINARY", "IMAGE"])]

/-- The kind a type declares. Case and what stands in parentheses do not count, and an
unknown name declares text. -/
def ofDeclared (declared : Text) : ColumnKind :=
  let base := (Text.trim (declared.takeWhile (· != '('))).asciiUpper
  match declaredNames.find? fun row => row.2.contains base with
  | some row => row.1
  | none => text

end ColumnKind

/-- A column of a table. -/
structure Column where
  name : Text
  /-- The type as it was declared. -/
  declared : Text
  nullable : Bool := true
  primaryKey : Bool := false
deriving DecidableEq, Repr

namespace Column

/-- The kind of column its declared type stands for. -/
def kind (c : Column) : ColumnKind := .ofDeclared c.declared

/-- A column of the primary key. -/
def key (name declared : Text) : Column := ⟨name, declared, false, true⟩

/-- A column that always has a value. -/
def required (name declared : Text) : Column := ⟨name, declared, false, false⟩

/-- A column that may be without a value. -/
def optional (name declared : Text) : Column := ⟨name, declared, true, false⟩

end Column

end SqlScribe
