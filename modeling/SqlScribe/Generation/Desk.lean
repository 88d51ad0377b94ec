import SqlScribe.Generation.Answer
import SqlScribe.Generation.Chat

/-!
# The desk

The desk takes questions and statements. It asks its completion model within the time
the settings give, falls back to the rules, and can hand statements to an engine. A run
of the desk records the prompts it put to the model and the statements it handed over.
-/

namespace SqlScribe

/-- What a model answers to a prompt, and after how many milliseconds. -/
structure ModelReply where
  delay : Nat
  answer : Except ModelError Text

/-- A completion model. -/
abbrev Model := Text → ModelReply

namespace Model

/-- There is no model. -/
def absent : Model := fun _ => ⟨0, .error .disabled⟩

/-- The model behind a chat endpoint. -/
def chat (m : ModelSettings) (send : Transport) : Model := fun prompt =>
  ⟨0, Chat.complete m send prompt⟩

end Model

/-- What runs a statement: it brings rows, or says why there are none. -/
abbrev Engine (Row : Type) := Text → Except ExecutionError (List Row)

/-- A desk with its schema, its model and its settings. -/
structure Desk where
  schema : Schema
  model : Model
  settings : Settings

/-- What came of a run, with the prompts put to the model and the statements handed to the
engine, in order. -/
structure Run (α : Type) where
  prompts : List Text
  handed : List Text
  result : Except AnswerError α

/-- An answer with the rows the engine found for it. -/
structure Executed (Row : Type) where
  answer : Answer
  rows : List Row

namespace Desk

/-- A desk without a model. -/
def rulesOnly (s : Schema) : Desk := ⟨s, .absent, .rulesOnly⟩

/-- The answer of the model to a prompt, if it comes in time. -/
def ask (d : Desk) (prompt : Text) : Except ModelError Text :=
  let reply := d.model prompt
  let limit := d.settings.model.timeoutMs
  if limit < reply.delay then .error (.timeout limit) else reply.answer

/-- What the model contributes to the answer to a question. -/
def outcome (d : Desk) (question : Text) : ModelOutcome :=
  if d.settings.useModel then
    match d.ask (promptFor d.schema question) with
    | .ok raw => .completed raw
    | .error e => .failed e
  else .skipped

/-- Answers a question. -/
def answer (d : Desk) (question : Text) : Run Answer where
  prompts := if d.settings.useModel then [promptFor d.schema question] else []
  handed := []
  result := answerWith question d.schema (d.outcome question) d.settings.modelDialect

/-- Hands the statement of an answer to the engine. -/
def execute {Row : Type} (engine : Engine Row) (run : Run Answer) : Run (Executed Row) :=
  match run.result with
  | .error e => { run with result := .error e }
  | .ok a =>
    { run with
      handed := run.handed ++ [a.statement.text]
      result :=
        match engine a.statement.text with
        | .error e => .error (.execution e)
        | .ok rows => .ok ⟨a, rows⟩ }

/-- Answers a question and runs the answer. -/
def answerAndExecute {Row : Type} (d : Desk) (question : Text) (engine : Engine Row) :
    Run (Executed Row) :=
  execute engine (d.answer question)

end Desk

/-- The answer that a statement of a user gives: the statement in normal form, which has to
pass the gate before and after it is converted. -/
def answerOfSql (sql : Text) (d : Dialect) : Except AnswerError Answer :=
  let statement : Statement := ⟨Statement.normalize sql, d, .userSupplied⟩
  match Statement.rejection? statement.text with
  | some r => .error (.rejected r)
  | none =>
    match statement.toCanonical with
    | .error r => .error (.rejected r)
    | .ok r => .ok (.ofConversion r)

/-- Runs a statement of a user. -/
def executeSql {Row : Type} (sql : Text) (d : Dialect) (engine : Engine Row) :
    Run (Executed Row) :=
  Desk.execute engine ⟨[], [], answerOfSql sql d⟩

end SqlScribe
