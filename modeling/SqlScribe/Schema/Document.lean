import SqlScribe.Json.Shape
import SqlScribe.Schema.Basic

/-!
# Schemas from documents

A schema document is an object with a member for each table, which holds its columns and
perhaps a description. A table needs columns, and no two of one name; the first table
that breaks this is the one reported.
-/

namespace SqlScribe

/-- Why a document gives no schema. -/
inductive SchemaError where
  /-- It is no JSON document of the shape of a schema. -/
  | malformed
  | emptyTable (table : Text)
  | duplicateColumn (table column : Text)
deriving DecidableEq, Repr

/-- The sentence that tells a reader what is wrong with the document. -/
def SchemaError.message : SchemaError → Text
  | malformed => "schema document is not valid JSON"
  | emptyTable t => "table `" ++ t ++ "` declares no columns"
  | duplicateColumn t c => "table `" ++ t ++ "` declares column `" ++ c ++ "` twice"

/-! ## Columns in JSON -/

/-- The kind of column a name stands for. -/
def ColumnKind.ofJson? : Json → Option ColumnKind :=
  Json.named? ([integer, real, text, date, blob].map fun k => (k.name, k))

namespace Column

/-- The column a record describes. Only the name has to be there. -/
def ofJson? (j : Json) : Option Column := do
  match ← j.fields? ["name", "type", "notNull", "primaryKey"] with
  | [name, type, notNull, primaryKey] =>
      let name ← Json.required? Json.text? name
      let declared ← Json.orDefault? Json.text? [] type
      let notNull ← Json.orDefault? Json.bool? false notNull
      let primaryKey ← Json.orDefault? Json.bool? false primaryKey
      some ⟨name, declared, !notNull, primaryKey⟩
  | _ => none

/-- The record that describes the column. -/
def toJson (c : Column) : Json := .ofMembers [
  ("name", .ofText c.name), ("type", .ofText c.declared), ("notNull", .bool !c.nullable),
  ("primaryKey", .bool c.primaryKey)]

end Column

/-! ## Tables in JSON -/

/-- A table as a document describes it. -/
structure TableRecord where
  name : Text
  columns : List Column
  description : Text
deriving DecidableEq, Repr

/-- The table that a member of the document describes. -/
def TableRecord.ofMember? (name : Text) (j : Json) : Option TableRecord := do
  match ← j.fields? ["columns", "description"] with
  | [columns, description] =>
      let columns ← Json.required? (Json.listOf? Column.ofJson?) columns
      let description ← Json.orDefault? Json.text? [] description
      some ⟨name, columns, description⟩
  | _ => none

/-- The first column whose name an earlier one has, with the names in `seen` in front. -/
def repeatedColumn? (seen : List Text) : List Column → Option Text
  | [] => none
  | c :: cs => if seen.contains c.name then some c.name else repeatedColumn? (c.name :: seen) cs

/-- The table of a record, or what is wrong with it. -/
def TableRecord.table (r : TableRecord) : Except SchemaError Table :=
  if r.columns.isEmpty then .error (.emptyTable r.name)
  else
    match repeatedColumn? [] r.columns with
    | some c => .error (.duplicateColumn r.name c)
    | none => .ok ⟨r.name, r.description, r.columns⟩

namespace Schema

/-- The tables of records, up to the first one with something wrong. -/
def tablesOf : List TableRecord → Except SchemaError (List Table)
  | [] => .ok []
  | r :: rs =>
      match r.table with
      | .error e => .error e
      | .ok t => (tablesOf rs).map (t :: ·)

/-- The schema of the records of a document. -/
def ofRecords (rs : List TableRecord) : Except SchemaError Schema :=
  (tablesOf rs).map ofTables

/-- The records a document describes. A table that is described twice keeps its place and has
the last description. -/
def records? (j : Json) : Option (List TableRecord) :=
  match j.members? with
  | none => none
  | some ms =>
      (ms.mapM fun m => TableRecord.ofMember? m.1 m.2).map (lastByName TableRecord.name)

/-- The schema of a parsed document. -/
def ofJson (j : Json) : Except SchemaError Schema :=
  match records? j with
  | none => .error .malformed
  | some rs => ofRecords rs

/-- The schema a document describes. -/
def ofDocument (document : Text) : Except SchemaError Schema :=
  match Json.parse? document with
  | none => .error .malformed
  | some j => ofJson j

/-- The schema a value in its own right describes: its tables come in the order of their
names. -/
def ofGeneric (j : Json) : Except SchemaError Schema :=
  match j.generic? with
  | none => .error .malformed
  | some v => ofJson v

end Schema

end SqlScribe
