import SqlScribe.Statement.Gate

/-!
# What went less well than it could

A degradation is something that went wrong and was absorbed: there is a statement
nevertheless, but not the best one.
-/

namespace SqlScribe

/-- Why a completion model gave no completion. -/
inductive ModelError where
  /-- The request did not get through. -/
  | transport (detail : Text)
  /-- The server answered with a status that is no success. -/
  | status (code : Nat)
  /-- There was no answer within so many milliseconds. -/
  | timeout (limit : Nat)
  /-- The answer could not be read. -/
  | decode (detail : Text)
  | empty
  /-- There is no model to ask. -/
  | disabled
deriving DecidableEq, Repr

/-- The sentence that tells a reader what went wrong. -/
def ModelError.message : ModelError → Text
  | transport d => "model request failed: " ++ d
  | status c => "model server answered with status " ++ Text.ofNat c
  | timeout l => "model did not answer within " ++ Text.ofNat l ++ " ms"
  | decode d => "model response could not be decoded: " ++ d
  | empty => "model returned an empty completion"
  | disabled => "no completion model is configured"

/-- Something that went wrong and was absorbed. -/
inductive Degradation where
  /-- An amount was compared with, but none could be read. -/
  | amountAmbiguous
  /-- The question was not understood, and a general listing answers it. -/
  | entityUnresolved
  /-- A rule of the dialect found nothing to change. -/
  | ruleMissed (rule : Text)
  /-- The model gave no completion. -/
  | modelUnavailable (error : ModelError)
  /-- The gate refused what the model wrote. -/
  | modelOutputRejected (reason : Rejection)
deriving DecidableEq, Repr

/-- The sentence that tells a reader what went wrong. -/
def Degradation.message : Degradation → Text
  | amountAmbiguous => "amount could not be read"
  | entityUnresolved => "query not understood, generic listing used"
  | ruleMissed r => "rewrite rule " ++ r ++ " did not apply"
  | modelUnavailable e => e.message
  | modelOutputRejected r => "model output rejected: " ++ r.message

end SqlScribe
