import SqlScribe.Plan.Basic
import SqlScribe.Schema.Basic
import SqlScribe.Statement.Basic

/-!
# From a request to a statement

A request is checked against a schema before anything is written: its table and columns
have to be there, its values have to suit their columns, and no text may contain a
character that could end it. `Request.fault?` finds the first thing wrong; a request
without a fault has a plan, and the plan a statement.
-/

namespace SqlScribe

/-- What is wrong with a request. -/
inductive RequestError where
  | unknownTable (name : Text)
  /-- There is no such column; `candidates` are those of the table. -/
  | unknownColumn (table name : Text) (candidates : List Text)
  /-- A column is to be shown twice. -/
  | duplicateColumn (name : Text)
  /-- There is nothing to compute a figure over. -/
  | missingMetric (table : Text)
  /-- A column does not go with a value of the kind `kind`. -/
  | typeMismatch (column kind : Text)
  /-- An interval is compared with one value, or one value with an interval. -/
  | malformedPredicate (column : Text)
  /-- A text contains a quote, a backslash or a semicolon. -/
  | unsafeLiteral (column value : Text)
deriving DecidableEq, Repr

/-- The sentence that tells a reader what is wrong. -/
def RequestError.message : RequestError → Text
  | unknownTable n => "unknown table `" ++ n ++ "`"
  | unknownColumn t n cs =>
      "unknown column `" ++ n ++ "` in `" ++ t ++ "` (available: " ++ Text.join ", " cs ++ ")"
  | duplicateColumn n => "column `" ++ n ++ "` is projected twice"
  | missingMetric t => "table `" ++ t ++ "` has no column to aggregate"
  | typeMismatch c k => "column `" ++ c ++ "` cannot be compared with a " ++ k ++ " value"
  | malformedPredicate c => "operator does not fit the value given for `" ++ c ++ "`"
  | unsafeLiteral c _ => "literal for `" ++ c ++ "` contains a quote, backslash or semicolon"

/-! ## Checks -/

/-- The characters that no text may contain, since they could end it. -/
def isUnsafe (c : Char) : Bool := c == '\'' || c == '\\' || c == ';'

/-- What is wrong with a value for a column of some kind. -/
def literalFault? (column : Text) (kind : ColumnKind) : Literal → Option RequestError
  | .integer _ => if kind.isNumeric then none else some (.typeMismatch column "numeric")
  | .date _ =>
      if kind = .date ∨ kind = .text then none else some (.typeMismatch column "date")
  | .text t =>
      if kind.isNumeric then some (.typeMismatch column "text")
      else if t.any isUnsafe then some (.unsafeLiteral column t)
      else none

namespace Table

/-- The error for a column the table does not have. -/
def unknownColumn (t : Table) (name : Text) : RequestError :=
  .unknownColumn t.name name t.columnNames

/-- What is wrong with the mention of a column. -/
def columnFault? (t : Table) (name : Text) : Option RequestError :=
  if t.hasColumn name then none else some (t.unknownColumn name)

/-- What is wrong with the columns to show, behind the columns `seen`. -/
def projectionFault? (t : Table) (seen : List Text) : List Text → Option RequestError
  | [] => none
  | c :: cs =>
      if !t.hasColumn c then some (t.unknownColumn c)
      else if seen.contains c then some (.duplicateColumn c)
      else t.projectionFault? (c :: seen) cs

/-- What is wrong with a condition. -/
def predicateFault? (t : Table) (p : Predicate) : Option RequestError :=
  match t.column? p.column with
  | none => some (t.unknownColumn p.column)
  | some c =>
    match p.operator, p.operand with
    | .between, .range low high =>
        (literalFault? p.column c.kind low).or (literalFault? p.column c.kind high)
    | .between, .single _ => some (.malformedPredicate p.column)
    | _, .range _ _ => some (.malformedPredicate p.column)
    | _, .single l => literalFault? p.column c.kind l

/-- What is wrong with the column a figure is computed over. -/
def metricFault? (t : Table) : Option Text → Option RequestError
  | none => some (.missingMetric t.name)
  | some m =>
    match t.column? m with
    | none => some (t.unknownColumn m)
    | some c => if c.kind.isNumeric then none else some (.typeMismatch m "numeric")

end Table

namespace Request

/-- What is wrong with the parts of a request that its intent looks at. A request for rows
looks at the columns and the order, one for a figure at the metric and the grouping. -/
def intentFault? (r : Request) (intent : Intent) (t : Table) : Option RequestError :=
  match intent with
  | .select =>
      (t.projectionFault? [] r.columns).or (r.order.bind fun o => t.columnFault? o.column)
  | .count => none
  | .aggregate _ => (t.metricFault? r.metric).or (r.groupBy.bind t.columnFault?)

/-- The first thing wrong with a request, its conditions before the rest. -/
def fault? (r : Request) (intent : Intent) (t : Table) : Option RequestError :=
  (r.conditions.findSome? t.predicateFault?).or (r.intentFault? intent t)

/-! ## Plan and statement -/

/-- The rows of the table that meet the conditions. -/
def rows (r : Request) (t : Table) : Plan :=
  if r.conditions.isEmpty then .scan t.name else .filter (.scan t.name) r.conditions

/-- The plan of a request without a fault. -/
def planOver (r : Request) (intent : Intent) (t : Table) : Plan :=
  match intent with
  | .select =>
      let shown := Plan.project (r.rows t) r.columns
      let sorted := match r.order with
        | none => shown
        | some o => .sort shown o
      match r.limit with
      | none => sorted
      | some n => .limit sorted n
  | .count => .aggregate (r.rows t) none .count
  | .aggregate a => .aggregate (r.rows t) r.groupBy (.ofColumn a (r.metric.getD []))

/-- The plan of a request, or what is wrong with it. -/
def plan (r : Request) (intent : Intent) (s : Schema) : Except RequestError Plan :=
  match s.table? r.table with
  | none => .error (.unknownTable r.table)
  | some t =>
    match r.fault? intent t with
    | some e => .error e
    | none => .ok (r.planOver intent t)

/-- The statement that answers a request, or what is wrong with it. -/
def build (r : Request) (intent : Intent) (s : Schema) : Except RequestError Statement :=
  (r.plan intent s).map fun p => ⟨Statement.normalize p.sql, .canonical, .ruleGenerated⟩

end Request

end SqlScribe
