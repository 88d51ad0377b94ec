import SqlScribe.Plan.Check
import SqlScribe.Question.Reading

/-!
# Answering by rules

The way from a question to a statement that needs no model: the question is read, the
request checked and written, and the statement has to pass the gate.
-/

namespace SqlScribe

/-- Why the rules give no statement. -/
inductive RuleError where
  | request (e : RequestError)
  /-- The gate refuses the statement. -/
  | rejected (r : Rejection)
deriving DecidableEq, Repr

/-- The sentence that tells a reader why there is no statement. -/
def RuleError.message : RuleError → Text
  | request e => e.message
  | rejected r => "rule output rejected: " ++ r.message

/-- A statement with the reading it comes from. -/
structure RuleAnswer where
  statement : Statement
  reading : Reading
deriving DecidableEq, Repr

/-- The statement the rules give for a question. -/
def answerByRules (question : Text) (s : Schema) : Except RuleError RuleAnswer :=
  let reading := readQuestion question s
  match reading.request.build reading.intent s with
  | .error e => .error (.request e)
  | .ok statement =>
    match Statement.rejection? statement.text with
    | some r => .error (.rejected r)
    | none => .ok ⟨statement, reading⟩

end SqlScribe
