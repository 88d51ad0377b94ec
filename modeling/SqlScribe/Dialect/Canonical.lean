import SqlScribe.Dialect.Hive
import SqlScribe.Dialect.Sybase
import SqlScribe.Statement.Gate

/-!
# To the canonical dialect

A statement in an auxiliary dialect is converted and has to pass the gate afterwards;
a canonical one has to pass the gate as it is.
-/

namespace SqlScribe

/-- The rules for a dialect; the canonical one needs none. -/
def Dialect.pipeline? : Dialect → Option Pipeline
  | canonical => none
  | hive => some Hive.pipeline
  | sybase => some Sybase.pipeline

/-- A canonical statement that passed the gate, with the one it was converted from. -/
structure Conversion where
  statement : Statement
  source : Statement
  applied : List Text
  missed : List Text
deriving DecidableEq, Repr

/-- The statement in the canonical dialect, or why the gate refuses the result. -/
def Statement.toCanonical (s : Statement) : Except Rejection Conversion :=
  match s.dialect.pipeline? with
  | none =>
    match rejection? s.text with
    | some r => .error r
    | none => .ok ⟨s, s, [], []⟩
  | some p =>
    let report := p.apply s.text
    match rejection? report.text with
    | some r => .error r
    | none =>
        .ok ⟨{ s with text := report.text, dialect := .canonical }, s, report.applied,
          report.missed⟩

/-- The sentence for a statement that the gate refuses after its conversion. -/
def Conversion.refusalMessage (r : Rejection) : Text :=
  "transpiled statement rejected: " ++ r.message

end SqlScribe
