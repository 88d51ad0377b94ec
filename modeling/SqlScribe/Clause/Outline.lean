import SqlScribe.Clause.Keyword

/-!
# Outlines

The outline of a statement is its top-level clauses in order, each with the text
between its keyword and the next one, and whether the statement ended in `;`.
-/

namespace SqlScribe

/-- The clauses of a `SELECT`, in the order they may appear. -/
inductive ClauseKind where
  /-- What stands in front of `SELECT`. -/
  | leading
  | select
  | from
  | where
  | groupBy
  | having
  | orderBy
  | limit
deriving DecidableEq, Repr

namespace ClauseKind

/-- The place of a clause in the order. -/
def rank : ClauseKind → Nat
  | leading => 0
  | select => 1
  | «from» => 2
  | «where» => 3
  | groupBy => 4
  | having => 5
  | orderBy => 6
  | limit => 7

/-- The word a clause is written with. -/
def word : ClauseKind → Text
  | leading => []
  | select => "SELECT"
  | «from» => "FROM"
  | «where» => "WHERE"
  | groupBy => "GROUP BY"
  | having => "HAVING"
  | orderBy => "ORDER BY"
  | limit => "LIMIT"

/-- The keyword that opens a clause. `SELECT` may be followed by a star, `WHERE` and
`HAVING` by a parenthesis; all of them by a blank. -/
def keyword : ClauseKind → Keyword
  | select => .ofWord (word .select) true ['*']
  | «where» => .ofWord (word .where) true ['(']
  | having => .ofWord (word .having) true ['(']
  | k => .ofWord k.word true []

/-- The clauses a keyword can open, the last one first. -/
def openable : List ClauseKind :=
  [limit, orderBy, having, groupBy, .where, .from, select]

end ClauseKind

/-- One clause with the text behind its keyword. -/
structure Clause where
  kind : ClauseKind
  body : Text
deriving DecidableEq, Repr

/-- A statement as its top-level clauses. -/
structure Outline where
  clauses : List Clause
  /-- The statement ended in `;`. -/
  terminated : Bool
deriving DecidableEq, Repr

namespace Outline

/-! ## Looking up and changing clauses -/

/-- The body of the first clause of a kind. -/
def body? (o : Outline) (k : ClauseKind) : Option Text :=
  (o.clauses.find? fun c => c.kind == k).map Clause.body

/-- Whether there is a clause of this kind. -/
def has (o : Outline) (k : ClauseKind) : Bool := (o.body? k).isSome

/-- The clauses with the body of the first one of a kind changed. -/
def editClauses (k : ClauseKind) (f : Text → Text) : List Clause → List Clause
  | [] => []
  | c :: cs => if c.kind == k then ⟨k, f c.body⟩ :: cs else c :: editClauses k f cs

/-- The clauses with a new one put in front of the first that comes later in the order. -/
def insertClause (n : Clause) : List Clause → List Clause
  | [] => [n]
  | c :: cs => if n.kind.rank < c.kind.rank then n :: c :: cs else c :: insertClause n cs

/-- The outline with the body of a clause changed, if the clause is there. -/
def edit (o : Outline) (k : ClauseKind) (f : Text → Text) : Outline :=
  { o with clauses := editClauses k f o.clauses }

/-- The outline with this body for a clause: the clause is changed where it is there, and
put at its place in the order where it is not. -/
def set (o : Outline) (k : ClauseKind) (body : Text) : Outline :=
  if o.has k then o.edit k fun _ => body
  else { o with clauses := insertClause ⟨k, body⟩ o.clauses }

/-! ## Writing -/

/-- A clause as it is written: its word and its body. -/
def writeClause (c : Clause) : Text :=
  match c.kind with
  | .leading => c.body
  | k => k.word ++ " " ++ c.body

/-- The statement the outline stands for, with single spaces for layout. -/
def render (o : Outline) : Text :=
  Text.collapse (Text.join " " (o.clauses.map writeClause))
    ++ if o.terminated then [';'] else []

end Outline

end SqlScribe
