import SqlScribe.Generation.Completion
import SqlScribe.Generation.Rules
import SqlScribe.Dialect.Canonical

/-!
# Answers

A question is answered by what a completion model wrote, if the gate lets it through
before and after it is converted, and by the rules otherwise. What went wrong with the
model is kept as a degradation of the answer. There is no answer only when the rules
fail as well.
-/

namespace SqlScribe

/-- A canonical statement that passed the gate, and how it came about. -/
structure Answer where
  statement : Statement
  /-- The statement in an auxiliary dialect that it was converted from. -/
  source : Option Statement
  /-- What the rules took the question to ask for, when they wrote the statement. -/
  intent : Option Intent
  degradations : List Degradation
deriving DecidableEq, Repr

/-- What a completion model contributed to an answer. -/
inductive ModelOutcome where
  /-- It was not asked. -/
  | skipped
  | completed (raw : Text)
  | failed (e : ModelError)
deriving DecidableEq, Repr

/-- Why a statement could not be run. -/
inductive ExecutionError where
  | database (detail : Text)
  | unavailable (detail : Text)
deriving DecidableEq, Repr

/-- The sentence that tells a reader why a statement could not be run. -/
def ExecutionError.message : ExecutionError → Text
  | database d => "database error: " ++ d
  | unavailable d => "database is unavailable: " ++ d

/-- Why there is no answer. -/
inductive AnswerError where
  /-- The gate refuses the statement. -/
  | rejected (r : Rejection)
  /-- Neither the model, if it was asked, nor the rules gave a statement. -/
  | noStatement (model : Option Text) (rules : Text)
  /-- The engine failed to run the statement. -/
  | execution (e : ExecutionError)
deriving DecidableEq, Repr

/-- The sentence that tells a reader why there is no answer. -/
def AnswerError.message : AnswerError → Text
  | rejected r => "statement rejected by validation: " ++ r.message
  | noStatement model rules =>
      "no valid statement could be generated (model: " ++ model.getD "not used" ++ ", rules: "
        ++ rules ++ ")"
  | execution e => "execution failed: " ++ e.message

namespace Answer

/-- The answer a conversion gives. -/
def ofConversion (r : Conversion) : Answer where
  statement := r.statement
  source := if r.source.dialect.isAuxiliary then some r.source else none
  intent := none
  degradations := r.missed.map .ruleMissed

/-- The answer a completion gives, or why it gives none. -/
def ofCompletion (raw : Text) (d : Dialect) : Except Degradation Answer :=
  let cleaned := Completion.clean raw
  if cleaned.isEmpty then .error (.modelUnavailable .empty)
  else
    match Statement.rejection? cleaned with
    | some r => .error (.modelOutputRejected r)
    | none =>
      match Statement.toCanonical ⟨cleaned, d, .modelGenerated⟩ with
      | .error r => .error (.modelOutputRejected r)
      | .ok r => .ok (ofConversion r)

/-- The answer of the rules, behind what went wrong with the model. -/
def ofRules (question : Text) (s : Schema) (failure : Option Degradation) :
    Except AnswerError Answer :=
  match answerByRules question s with
  | .error e => .error (.noStatement (failure.map Degradation.message) e.message)
  | .ok a =>
      .ok ⟨a.statement, none, some a.reading.intent,
        failure.toList ++ a.reading.degradations⟩

end Answer

/-- The answer to a question, with what the model contributed to it. -/
def answerWith (question : Text) (s : Schema) (outcome : ModelOutcome) (d : Dialect) :
    Except AnswerError Answer :=
  match outcome with
  | .skipped => Answer.ofRules question s none
  | .failed e => Answer.ofRules question s (some (.modelUnavailable e))
  | .completed raw =>
    match Answer.ofCompletion raw d with
    | .ok a => .ok a
    | .error failure => Answer.ofRules question s (some failure)

/-- The answer to a question, with the completion of a model if there is one. -/
def answer (question : Text) (s : Schema) (completion : Option Text) (d : Dialect) :
    Except AnswerError Answer :=
  answerWith question s
    (match completion with
      | none => .skipped
      | some raw => .completed raw) d

end SqlScribe
