import SqlScribe.Clause.Scan
import SqlScribe.Pattern.Search

/-!
# Bringing a dialect to the canonical one

A pipeline brings statements of one dialect to the canonical one. Its lexical rules
work on the raw text; the others on the clauses of its outline, first the names of
types, then functions, then the shape of the statement. Each rule is run once, in the
order listed, and the report says which ones changed something.
-/

namespace SqlScribe

/-- A rule that replaces every match of a pattern in a text. -/
structure TextRule where
  name : Text
  pattern : Pattern
  replacement : Match → Text

/-- A rule that changes an outline, or finds nothing to change. -/
structure ShapeRule where
  name : Text
  reshape? : Outline → Option Outline

namespace TextRule

/-- The text with the rule applied. -/
def applyTo (r : TextRule) (t : Text) : Text := r.pattern.replaceAll r.replacement t

/-- The text with the rule applied, `none` when that is the same text. -/
def change? (r : TextRule) (t : Text) : Option Text :=
  let new := r.applyTo t
  if new = t then none else some new

/-- The outline with the rule applied to the body of every clause. -/
def applyToOutline (r : TextRule) (o : Outline) : Outline :=
  { o with clauses := o.clauses.map fun c => { c with body := r.applyTo c.body } }

/-- The clauses with the rule applied to one body after the other, and whether one of them
changed. -/
def changeClauses (r : TextRule) : List Clause → List Clause × Bool
  | [] => ([], false)
  | c :: cs =>
      let rest := r.changeClauses cs
      match r.change? c.body with
      | some body => ({ c with body := body } :: rest.1, true)
      | none => (c :: rest.1, rest.2)

/-- The outline with the rule applied, `none` when the body of every clause stays the same. -/
def changeOutline? (r : TextRule) (o : Outline) : Option Outline :=
  let new := r.changeClauses o.clauses
  if new.2 then some { o with clauses := new.1 } else none

end TextRule

/-- Something under change, with the names of the rules that changed it and of those that
found nothing to change, each in the order they were run. -/
structure Progress (σ : Type) where
  state : σ
  applied : List Text
  missed : List Text

/-- Runs one more rule. -/
def Progress.step {σ : Type} (p : Progress σ) (name : Text) (rule? : σ → Option σ) :
    Progress σ :=
  match rule? p.state with
  | some s => { p with state := s, applied := p.applied ++ [name] }
  | none => { p with missed := p.missed ++ [name] }

/-- The rules for one dialect, by the stage they run in. -/
structure Pipeline where
  lexical : List TextRule
  types : List TextRule
  functions : List TextRule
  shape : List ShapeRule

/-- The canonical text of a statement and the names of the rules that did and did not
contribute to it. -/
structure Report where
  text : Text
  applied : List Text
  missed : List Text
deriving DecidableEq, Repr

namespace Pipeline

/-- The names of the rules, in the order they are run. -/
def ruleNames (p : Pipeline) : List Text :=
  (p.lexical ++ p.types ++ p.functions).map TextRule.name ++ p.shape.map ShapeRule.name

/-- The text after the lexical rules. -/
def runLexical (p : Pipeline) (sql : Text) : Progress Text :=
  p.lexical.foldl (fun g r => g.step r.name r.change?) ⟨sql, [], []⟩

/-- The outline of the text after the lexical rules. -/
def outlined (g : Progress Text) : Progress Outline :=
  { g with state := Outline.scan g.state }

/-- The outline after one stage of text rules. -/
def runOnClauses (rules : List TextRule) (g : Progress Outline) : Progress Outline :=
  rules.foldl (fun g r => g.step r.name r.changeOutline?) g

/-- The outline after the rules of shape. -/
def runShape (p : Pipeline) (g : Progress Outline) : Progress Outline :=
  p.shape.foldl (fun g r => g.step r.name r.reshape?) g

/-- The outline in front of the last stage. -/
def beforeShape (p : Pipeline) (sql : Text) : Progress Outline :=
  runOnClauses p.functions (runOnClauses p.types (outlined (p.runLexical sql)))

/-- The outline after all rules. -/
def outline (p : Pipeline) (sql : Text) : Progress Outline :=
  p.runShape (p.beforeShape sql)

/-- The statement with all rules applied. -/
def apply (p : Pipeline) (sql : Text) : Report :=
  let g := p.outline sql
  ⟨g.state.render, g.applied, g.missed⟩

end Pipeline

end SqlScribe
