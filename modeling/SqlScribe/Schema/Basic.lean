import SqlScribe.Schema.Column

/-!
# Schemas

A schema is a list of tables, and a table a list of columns, both in the order they
were declared. Things declared under the name of an earlier one take its place
(`putByName`), so a name finds at most one.
-/

namespace SqlScribe

/-- The list with `x` put in the place of the element of the same name, or at the end when
there is none. -/
def putByName {α : Type} (name : α → Text) (x : α) : List α → List α
  | [] => [x]
  | y :: ys => if name y = name x then x :: ys else y :: putByName name x ys

/-- The elements in the order their names first came up, each as it was given last. -/
def lastByName {α : Type} (name : α → Text) (xs : List α) : List α :=
  xs.foldl (fun acc x => putByName name x acc) []

/-- A table with its columns in order. -/
structure Table where
  name : Text
  description : Text
  columns : List Column
deriving DecidableEq, Repr

namespace Table

/-- The table of these columns. -/
def ofColumns (name description : Text) (columns : List Column) : Table :=
  ⟨name, description, lastByName Column.name columns⟩

/-- The column of a name. -/
def column? (t : Table) (name : Text) : Option Column :=
  t.columns.find? fun c => c.name == name

/-- Whether there is a column of this name. -/
def hasColumn (t : Table) (name : Text) : Bool := (t.column? name).isSome

/-- The names of the columns in order. -/
def columnNames (t : Table) : List Text := t.columns.map Column.name

/-- The table as a reader is told of it, in Korean. -/
def listing (t : Table) : Text :=
  "테이블: " ++ t.name ++ "\n설명: " ++ t.description ++ "\n컬럼: "
    ++ Text.join ", " t.columnNames ++ "\n\n"

end Table

/-- The tables that can be asked about. -/
structure Schema where
  tables : List Table
deriving DecidableEq, Repr

namespace Schema

/-- The schema of these tables. -/
def ofTables (tables : List Table) : Schema := ⟨lastByName Table.name tables⟩

/-- The table of a name. -/
def table? (s : Schema) (name : Text) : Option Table :=
  s.tables.find? fun t => t.name == name

/-- Whether there is a table of this name. -/
def hasTable (s : Schema) (name : Text) : Bool := (s.table? name).isSome

/-- Whether there is such a column of such a table. -/
def hasColumn (s : Schema) (table column : Text) : Bool :=
  (s.table? table).any fun t => t.hasColumn column

/-- The tables listed for a reader, in Korean. -/
def listing (s : Schema) : Text :=
  "다음은 사용 가능한 데이터베이스 테이블들입니다:\n\n" ++ s.tables.flatMap Table.listing

/-- The built-in schema: employees, departments, projects, and who works on what. -/
def humanResources : Schema := .ofTables [
  .ofColumns "employees" "직원 정보 테이블" [
    .key "id" "INTEGER", .required "name" "TEXT", .required "department" "TEXT",
    .required "salary" "INTEGER", .required "hire_date" "DATE"],
  .ofColumns "departments" "부서 정보 테이블" [
    .key "id" "INTEGER", .required "name" "TEXT", .optional "manager_id" "INTEGER",
    .required "budget" "INTEGER"],
  .ofColumns "projects" "프로젝트 정보 테이블" [
    .key "id" "INTEGER", .required "name" "TEXT", .required "start_date" "DATE",
    .optional "end_date" "DATE", .required "budget" "INTEGER"],
  .ofColumns "employee_projects" "직원-프로젝트 관계 테이블" [
    .key "employee_id" "INTEGER", .key "project_id" "INTEGER", .optional "role" "TEXT"]]

end Schema

end SqlScribe
