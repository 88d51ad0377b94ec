import SqlScribe.Question.Basic
import SqlScribe.Request.Basic

/-!
# The lexicon

The words a question is read by. Every table is looked through from the top, and the
first row with a keyword that the question mentions counts.
-/

namespace SqlScribe

/-! ## What is asked for -/

/-- Keywords that tell the kind of answer. -/
structure IntentRule where
  intent : Intent
  keywords : List Text

/-- Counts come before sums, and sums before averages. -/
def intentRules : List IntentRule := [
  ⟨.count, ["몇", "개수", "count", "how many"]⟩,
  ⟨.aggregate .sum, ["합계", "총합", "총액", "sum", "total"]⟩,
  ⟨.aggregate .avg, ["평균", "average", "avg", "mean"]⟩]

/-! ## Tables and columns -/

/-- Keywords that name a table, and those that say that another one is meant. -/
structure TableRule where
  table : Text
  anyOf : List Text
  noneOf : List Text

/-- The tables a question can name. -/
def tableRules : List TableRule := [
  ⟨"projects", ["프로젝트", "project", "projects"], []⟩,
  ⟨"departments", ["부서", "department", "departments"],
    ["직원", "사원", "employee", "employees", "급여", "연봉", "salary", "salaries", "입사",
      "hire", "hired", "부서별", "별로", "by department", "per department"]⟩]

/-- The table of a question that names none. -/
def defaultTable : Text := "employees"

/-- Keywords that name a column. -/
structure ColumnRule where
  column : Text
  keywords : List Text

/-- The columns a question can name. -/
def columnRules : List ColumnRule := [
  ⟨"name", ["이름", "name", "names"]⟩,
  ⟨"department", ["부서", "department", "departments"]⟩,
  ⟨"salary", ["급여", "연봉", "월급", "salary", "salaries"]⟩,
  ⟨"hire_date", ["입사", "hire", "hired"]⟩,
  ⟨"budget", ["예산", "budget", "budgets"]⟩]

/-- The columns that are shown of a table in any case. -/
def defaultProjection (table : Text) : List Text :=
  if table = "employees".toList then ["name", "department", "salary"]
  else if table = "departments".toList then ["name", "budget"]
  else if table = "projects".toList then ["name", "start_date", "end_date", "budget"]
  else []

/-- The column of money: amounts are compared with it, figures computed over it, and
"highest" and "lowest" order by it. -/
def metricColumn? (table : Text) : Option Text :=
  if table = "employees".toList then some "salary"
  else if table = "departments".toList ∨ table = "projects".toList then some "budget"
  else none

/-- The column that holds the name of a department. -/
def departmentColumn? (table : Text) : Option Text :=
  if table = "employees".toList then some "department"
  else if table = "departments".toList then some "name"
  else none

/-! ## Conditions -/

/-- Keywords that name a department. -/
structure DepartmentRule where
  department : Text
  keywords : List Text

/-- The departments a question can name. -/
def departmentRules : List DepartmentRule := [
  ⟨"개발팀", ["개발팀", "개발", "development"]⟩,
  ⟨"마케팅팀", ["마케팅", "marketing"]⟩,
  ⟨"영업팀", ["영업", "sales"]⟩,
  ⟨"인사팀", ["인사팀", "인사", "hr", "human resources"]⟩]

/-- Keywords that tell how an amount is compared. -/
structure ComparisonRule where
  operator : Operator
  keywords : List Text

/-- The comparisons. An amount without one is no condition; an interval needs none. -/
def comparisonRules : List ComparisonRule := [
  ⟨.gte, ["이상", "넘는", "초과", "over", "more than", "above", "at least"]⟩,
  ⟨.lte, ["이하", "미만", "under", "less than", "below", "at most"]⟩]

/-- Keywords that make a year a condition on the day of hiring. -/
def hireKeywords : List Text := ["입사", "hire", "hired", "joined"]

/-- Keywords that ask for one figure per department. -/
def groupingKeywords : List Text := [
  "부서별", "별로", "by department", "per department", "each department", "group by"]

/-! ## Order and number of rows -/

/-- What rows are ordered by. -/
inductive OrderTarget where
  /-- The column of money of the table. -/
  | metric
  | column (name : Text)
deriving DecidableEq, Repr

/-- Keywords that ask for an order. -/
structure OrderRule where
  target : OrderTarget
  direction : Direction
  keywords : List Text

/-- The orders a question can ask for. -/
def orderRules : List OrderRule := [
  ⟨.metric, .desc,
    ["높은", "많은", "최고", "상위", "desc", "highest", "maximum", "top", "best"]⟩,
  ⟨.metric, .asc,
    ["낮은", "적은", "최저", "최소", "하위", "asc", "lowest", "minimum", "worst"]⟩,
  ⟨.column "hire_date", .desc, ["최근", "recent", "recently", "latest", "newest"]⟩]

/-- Keywords of a superlative, which asks for one row. -/
def superlativeKeywords : List Text := [
  "가장", "제일", "최고", "최저", "the employee", "the person", "one employee"]

/-- The number of rows when an order is asked for without a count. -/
def orderedLimit : Nat := 5

/-- The number of rows shown for a question that is not understood. -/
def fallbackLimit : Nat := 10

/-! ## Words that are no names -/

/-- The last syllables of nouns for roles, which are not taken for names. -/
def roleEndings : List Char := ['자', '원', '장']

/-- Words that stand where a name could stand and are none. -/
def nonNames : List Text := [
  "급여", "정보", "연봉", "월급", "데이터", "이름", "부서", "직원", "사원", "평균", "최고",
  "최저", "가장", "제일", "높은", "낮은", "전체", "모든", "모두", "입사", "예산", "프로젝트",
  "개발", "개발팀", "마케팅", "마케팅팀", "영업", "영업팀", "인사", "인사팀", "팀장", "부서장"]

/-! ## Reading off the kind of answer -/

/-- The kind of answer a question asks for; rows, when no keyword tells another. -/
def Question.intent (q : Question) : Intent :=
  match intentRules.find? fun r => q.mentionsAny r.keywords with
  | some r => r.intent
  | none => .select

end SqlScribe
