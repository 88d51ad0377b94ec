import SqlScribe.Text.Basic

/-!
# Requests

A request is what a question asks for: rows or a figure, of one table, under
conditions that all have to hold. Nothing in it has been checked against a schema.
-/

namespace SqlScribe

/-- The figures that can be asked for besides a count. -/
inductive Aggregate where
  | avg
  | sum
deriving DecidableEq, Repr

/-- The function that computes the figure. -/
def Aggregate.function : Aggregate → Text
  | avg => "AVG"
  | sum => "SUM"

/-- The name of the figure in lower case. -/
def Aggregate.name : Aggregate → Text
  | avg => "avg"
  | sum => "sum"

/-- What kind of answer is asked for. -/
inductive Intent where
  | select
  | count
  | aggregate (a : Aggregate)
deriving DecidableEq, Repr

/-- Whether rows are asked for. -/
def Intent.isSelect : Intent → Bool
  | select => true
  | _ => false

/-- Whether a figure other than a count is asked for. -/
def Intent.isAggregate : Intent → Bool
  | aggregate _ => true
  | _ => false

/-- How a column is compared. -/
inductive Operator where
  | eq
  | gte
  | lte
  | between
deriving DecidableEq, Repr

/-- The operator as it is written in SQL. -/
def Operator.symbol : Operator → Text
  | eq => "="
  | gte => ">="
  | lte => "<="
  | between => "BETWEEN"

/-! ## Dates -/

/-- A day of the calendar. -/
structure Date where
  year : Int
  month : Nat
  day : Nat
deriving DecidableEq, Repr

/-- A text with zeros in front until it is `width` long. -/
def Text.padLeft (width : Nat) (t : Text) : Text :=
  List.replicate (width - t.length) '0' ++ t

/-- Year, month and day with dashes. A year has four digits at least, and a sign when it
is not one of the years 0 to 9999. -/
def Date.text (d : Date) : Text :=
  let sign : Text := if d.year < 0 then "-" else if 9999 < d.year then "+" else []
  sign ++ Text.padLeft 4 (Text.ofNat d.year.natAbs) ++ "-" ++ Text.padLeft 2 (Text.ofNat d.month)
    ++ "-" ++ Text.padLeft 2 (Text.ofNat d.day)

/-! ## Conditions -/

/-- A value a column is compared with. -/
inductive Literal where
  | integer (n : Int)
  | text (t : Text)
  | date (d : Date)
deriving DecidableEq, Repr

/-- One value, or the two ends of an interval. -/
inductive Operand where
  | single (l : Literal)
  | range (low high : Literal)
deriving DecidableEq, Repr

/-- A condition on one column. -/
structure Predicate where
  column : Text
  operator : Operator
  operand : Operand
deriving DecidableEq, Repr

namespace Predicate

/-- The column compared with one value. -/
def compare (column : Text) (op : Operator) (l : Literal) : Predicate :=
  ⟨column, op, .single l⟩

/-- The column between two values. -/
def between (column : Text) (low high : Literal) : Predicate :=
  ⟨column, .between, .range low high⟩

end Predicate

/-- Ascending or descending. -/
inductive Direction where
  | asc
  | desc
deriving DecidableEq, Repr

/-- The direction as it is written in SQL. -/
def Direction.word : Direction → Text
  | asc => "ASC"
  | desc => "DESC"

/-- The column rows are ordered by, and which way. -/
structure Order where
  column : Text
  direction : Direction
deriving DecidableEq, Repr

/-- What a question asks for. -/
structure Request where
  table : Text
  /-- The columns in the order they are shown; none means all of them. -/
  columns : List Text := []
  /-- The conditions, all of which have to hold. -/
  conditions : List Predicate := []
  order : Option Order := none
  /-- The most rows that are wanted. -/
  limit : Option Nat := none
  /-- The column by which an aggregate is broken down. -/
  groupBy : Option Text := none
  /-- The column an aggregate is computed over. -/
  metric : Option Text := none
deriving DecidableEq, Repr

end SqlScribe
