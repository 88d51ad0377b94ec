import SqlScribe.Json.Shape
import SqlScribe.Statement.Basic

/-!
# Statements in JSON

How dialects, provenances and statements are written in JSON, and read from it.
-/

namespace SqlScribe

/-- The dialect a name stands for. -/
def Dialect.ofJson? : Json → Option Dialect :=
  Json.named? ([canonical, hive, sybase].map fun d => (d.name, d))

/-- The provenance a name stands for. -/
def Provenance.ofJson? : Json → Option Provenance :=
  Json.named? ([ruleGenerated, modelGenerated, userSupplied].map fun p => (p.name, p))

namespace Statement

/-- The statement a record describes; every field has to be there. -/
def ofJson? (j : Json) : Option Statement := do
  match ← j.fields? ["text", "dialect", "provenance"] with
  | [text, dialect, provenance] =>
      let text ← Json.required? Json.text? text
      let dialect ← Json.required? Dialect.ofJson? dialect
      let provenance ← Json.required? Provenance.ofJson? provenance
      some ⟨text, dialect, provenance⟩
  | _ => none

/-- The record that describes the statement. -/
def toJson (s : Statement) : Json := .ofMembers [
  ("text", .ofText s.text), ("dialect", .ofText s.dialect.name),
  ("provenance", .ofText s.provenance.name)]

end Statement

end SqlScribe
