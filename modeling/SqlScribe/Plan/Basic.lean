import SqlScribe.Request.Basic

/-!
# Plans

A plan says how rows of one table become the answer, step on step. It is written as one
`SELECT`: each step contributes to its part of the statement (`Plan.parts`), and the
parts are put together in the order of SQL (`Plan.sql`).
-/

namespace SqlScribe

/-- What an aggregate computes. -/
inductive Measure where
  /-- The number of rows. -/
  | countAll
  | call (a : Aggregate) (column : Text)
deriving DecidableEq, Repr

/-- An aggregate and the name of its result. -/
structure AggregateCall where
  measure : Measure
  label : Text
deriving DecidableEq, Repr

namespace AggregateCall

/-- The number of rows, under the name `count`. -/
def count : AggregateCall := ⟨.countAll, "count"⟩

/-- A figure over a column, named for both. -/
def ofColumn (a : Aggregate) (column : Text) : AggregateCall :=
  ⟨.call a column, a.name ++ "_" ++ column⟩

/-- The aggregate as it is written among the columns. -/
def sql (c : AggregateCall) : Text :=
  match c.measure with
  | .countAll => "COUNT(*) AS " ++ c.label
  | .call a column => a.function ++ "(" ++ column ++ ") AS " ++ c.label

end AggregateCall

/-- The steps from a table to an answer. -/
inductive Plan where
  /-- All rows of a table. -/
  | scan (table : Text)
  /-- The rows that meet all conditions. -/
  | filter (input : Plan) (predicates : List Predicate)
  /-- One figure over the rows, or one for each value of a column. -/
  | aggregate (input : Plan) (groupKey : Option Text) (call : AggregateCall)
  /-- Some columns; none stands for all. -/
  | project (input : Plan) (columns : List Text)
  | sort (input : Plan) (key : Order)
  /-- The first rows. -/
  | limit (input : Plan) (count : Nat)
deriving DecidableEq, Repr

/-! ## Writing literals and conditions -/

/-- A literal as it is written in SQL. Texts are taken as they are: the check of a request
keeps out the characters that would end one. -/
def Literal.sql : Literal → Text
  | integer n => Text.ofInt n
  | text t => "'" ++ t ++ "'"
  | date d => "'" ++ d.text ++ "'"

/-- A condition as it is written in SQL. -/
def Predicate.sql (p : Predicate) : Text :=
  match p.operand with
  | .single l => p.column ++ " " ++ p.operator.symbol ++ " " ++ l.sql
  | .range low high => p.column ++ " BETWEEN " ++ low.sql ++ " AND " ++ high.sql

/-- An order as it is written in SQL. -/
def Order.sql (o : Order) : Text := o.column ++ " " ++ o.direction.word

/-! ## Writing plans -/

/-- The parts of a `SELECT` as texts. -/
structure SelectParts where
  table : Text
  projection : List Text
  conditions : List Text
  groupBy : Option Text
  orderBy : Option Text
  limit : Option Nat
deriving DecidableEq, Repr

namespace SelectParts

/-- A part that may be missing, with the words in front of it. -/
def clause (words : Text) : Option Text → Text
  | none => []
  | some body => words ++ body

/-- The columns and figures shown; all columns when none is named. -/
def shown (p : SelectParts) : Text :=
  if p.projection.isEmpty then ['*'] else Text.join ", " p.projection

/-- The conditions, joined by `AND`. -/
def condition? (p : SelectParts) : Option Text :=
  if p.conditions.isEmpty then none else some (Text.join " AND " p.conditions)

/-- The statement of the parts. -/
def sql (p : SelectParts) : Text :=
  "SELECT " ++ p.shown ++ " FROM " ++ p.table ++ clause " WHERE " p.condition?
    ++ clause " GROUP BY " p.groupBy ++ clause " ORDER BY " p.orderBy
    ++ clause " LIMIT " (p.limit.map Text.ofNat)

end SelectParts

namespace Plan

/-- What the steps contribute to the parts of the statement. -/
def parts : Plan → SelectParts
  | scan table => ⟨table, [], [], none, none, none⟩
  | filter input predicates =>
      let p := input.parts
      { p with conditions := p.conditions ++ predicates.map Predicate.sql }
  | aggregate input groupKey call =>
      let p := input.parts
      { p with
        projection := p.projection ++ groupKey.toList ++ [call.sql]
        groupBy := groupKey }
  | project input columns =>
      let p := input.parts
      { p with projection := p.projection ++ columns }
  | sort input key => { input.parts with orderBy := some key.sql }
  | limit input count => { input.parts with limit := some count }

/-- The statement of a plan, without a `;`. -/
def sql (p : Plan) : Text := p.parts.sql

end Plan

end SqlScribe
