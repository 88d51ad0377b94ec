import SqlScribe.Generation.Degradation
import SqlScribe.Question.Amount
import SqlScribe.Question.PersonName
import SqlScribe.Schema.Basic

/-!
# Reading a question

A question is read against a schema into a request. Reading never fails: a question
that names nothing the schema knows is answered with a general listing of the
employees, and the reading says so.
-/

namespace SqlScribe

/-- What a question was understood to ask for. -/
structure Reading where
  intent : Intent
  request : Request
  degradations : List Degradation
deriving DecidableEq, Repr

/-- The general listing of the employees. -/
def Request.fallback : Request where
  table := defaultTable
  columns := defaultProjection defaultTable
  limit := some fallbackLimit

namespace ReadingPattern

open Pattern

/-- Four digits and the word for a year. -/
def koreanYear : Pattern := group 1 (times 4 (one .decimal)) ++ blanks ++ literal "년"

/-- Four digits from 1900 to 2099 on their own, with no digit and no unit of money behind
them. -/
def bareYear : Pattern :=
  oneOf [anchor .textStart, one (.other .decimal)]
    ++ group 1 (oneOf [literal "19", literal "20"] ++ times 2 (one .decimal))
    ++ oneOf [anchor .textEnd, one (.other (.either .decimal (.among "만천백억원".toList)))]

/-- A number of rows. -/
def rowCount : Pattern :=
  let number := group 1 (run1 .decimal)
  oneOf [
    number ++ blanks ++ literal "명", literal "상위" ++ blanks ++ number,
    literal "하위" ++ blanks ++ number, letters "top" ++ blanks ++ number,
    letters "first" ++ blanks ++ number]

end ReadingPattern

namespace Question

/-! ## Table and columns -/

/-- The first table that the question names without saying that another one is meant. -/
def tableRule? (q : Question) : Option TableRule :=
  tableRules.find? fun r => q.mentionsAny r.anyOf && !q.mentionsAny r.noneOf

/-- The columns of a table that the question names, in the order of the lexicon. -/
def mentionedColumns (q : Question) (t : Table) : List Text :=
  (columnRules.filter fun r => t.hasColumn r.column && q.mentionsAny r.keywords).map
    ColumnRule.column

/-- The columns to show: those shown in any case, and behind them the ones named. -/
def projection (t : Table) (mentioned : List Text) : List Text :=
  mentioned.foldl (fun cs c => if cs.contains c then cs else cs ++ [c])
    ((defaultProjection t.name).filter t.hasColumn)

/-! ## Conditions -/

/-- The condition on the name of a person. -/
def nameCondition? (q : Question) (t : Table) : Option Predicate :=
  match personNameIn? q.asked with
  | some name =>
      if t.hasColumn "name" then some (.compare "name" .eq (.text name)) else none
  | none => none

/-- The condition on the department, unless its column is compared already. -/
def departmentCondition? (q : Question) (t : Table) (conditions : List Predicate) :
    Option Predicate :=
  match departmentRules.find? fun r => q.mentionsAny r.keywords,
      (departmentColumn? t.name).filter t.hasColumn with
  | some r, some column =>
      if conditions.any fun p => p.column == column then none
      else some (.compare column .eq (.text r.department))
  | _, _ => none

/-- The first comparison the question mentions. -/
def comparison? (q : Question) : Option ComparisonRule :=
  comparisonRules.find? fun r => q.mentionsAny r.keywords

/-- The condition on the amount. -/
def amountCondition? (q : Question) (t : Table) : Option Predicate :=
  match amountIn? q.asked, (metricColumn? t.name).filter t.hasColumn with
  | some (.range min max), some column => some (.between column (.integer min) (.integer max))
  | some (.value v), some column =>
      q.comparison?.map fun r => .compare column r.operator (.integer v)
  | _, _ => none

/-- A comparison is mentioned and no amount can be read. -/
def amountDegradations (q : Question) : List Degradation :=
  if (amountIn? q.asked).isNone && q.comparison?.isSome then [.amountAmbiguous] else []

/-- The first and the last day of the year a text names. -/
def calendarYear? (t : Text) : Option (Date × Date) :=
  let found :=
    match ReadingPattern.koreanYear.find? t with
    | some m => some m
    | none => ReadingPattern.bareYear.find? t
  match found with
  | none => none
  | some m =>
    match (m.group 1).toNat? with
    | none => none
    | some y => if 1900 ≤ y ∧ y ≤ 2100 then some (⟨y, 1, 1⟩, ⟨y, 12, 31⟩) else none

/-- The condition on the day of hiring. -/
def hireCondition? (q : Question) (t : Table) : Option Predicate :=
  if q.mentionsAny hireKeywords && t.hasColumn "hire_date" then
    (calendarYear? q.asked).map fun y =>
      .between "hire_date" (.date y.1) (.date y.2)
  else none

/-- The conditions of the question: name, department, amount and year, as far as they are
there. -/
def conditions (q : Question) (t : Table) : List Predicate :=
  let name := (q.nameCondition? t).toList
  name ++ (q.departmentCondition? t name).toList ++ (q.amountCondition? t).toList
    ++ (q.hireCondition? t).toList

/-! ## Order and number of rows -/

/-- The order the question asks for. -/
def order? (q : Question) (t : Table) : Option Order :=
  match orderRules.find? fun r => q.mentionsAny r.keywords with
  | none => none
  | some r =>
    let column? :=
      match r.target with
      | .metric => metricColumn? t.name
      | .column c => some c
    match column? with
    | none => none
    | some c => if t.hasColumn c then some ⟨c, r.direction⟩ else none

/-- The number of rows a text gives; one that does not fit 32 bits does not count. -/
def rowCountIn? (t : Text) : Option Nat :=
  match ReadingPattern.rowCount.find? t with
  | none => none
  | some m => (m.group 1).toNatUpTo? 4294967295

/-- The number of rows the question asks for. -/
def limit? (q : Question) (ordered : Bool) : Option Nat :=
  match rowCountIn? q.asked with
  | some n => some n
  | none =>
    if q.mentionsAny superlativeKeywords then some 1
    else if ordered then some orderedLimit
    else none

/-! ## The whole reading -/

/-- The request for the answer of a kind, over a table the question is about. -/
def requestFor (q : Question) (t : Table) (tableName : Text) (intent : Intent) : Request :=
  let order := if intent.isSelect then q.order? t else none
  { table := tableName
    columns := projection t (q.mentionedColumns t)
    conditions := q.conditions t
    order := order
    limit := if intent.isSelect then q.limit? order.isSome else none
    groupBy :=
      if intent.isAggregate && q.mentionsAny groupingKeywords && t.hasColumn "department" then
        some "department"
      else none
    metric := if intent.isAggregate then (metricColumn? tableName).filter t.hasColumn else none }

/-- The reading of a question. -/
def read (q : Question) (s : Schema) : Reading :=
  let rule? := q.tableRule?
  let tableName := (rule?.map TableRule.table).getD defaultTable
  match s.table? tableName with
  | none => ⟨.select, .fallback, [.entityUnresolved]⟩
  | some t =>
    let request := q.requestFor t tableName q.intent
    let understood :=
      rule?.isSome || !(q.mentionedColumns t).isEmpty || !request.conditions.isEmpty
        || request.order.isSome || request.limit.isSome
    if q.intent.isSelect && !understood then
      ⟨q.intent, .fallback, q.amountDegradations ++ [.entityUnresolved]⟩
    else ⟨q.intent, request, q.amountDegradations⟩

end Question

/-- What a text asks for, read against a schema. -/
def readQuestion (text : Text) (s : Schema) : Reading := (Question.ofText text).read s

end SqlScribe
