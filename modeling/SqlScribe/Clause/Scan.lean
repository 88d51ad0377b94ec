import SqlScribe.Clause.Outline

/-!
# From text to outline

A text is cut at the keywords that open a later clause than the one being read.
Keywords count only at the top level: outside quotes, brackets and parentheses. A
clause that lies behind is never opened again, its keyword stays in the body.
-/

namespace SqlScribe

/-- How deep in parentheses a place of a text lies, and which character closes the
quotation it lies in. -/
structure Nesting where
  depth : Nat
  closing : Option Char
deriving DecidableEq, Repr

namespace Nesting

/-- Outside of everything. -/
def top : Nesting := ⟨0, none⟩

/-- Outside of parentheses and quotations. -/
def isTop (n : Nesting) : Bool := n.depth == 0 && n.closing.isNone

/-- The nesting behind a character. Inside a quotation only its closing character counts;
a parenthesis closed without having been opened is passed over. -/
def read (n : Nesting) (c : Char) : Nesting :=
  match n.closing with
  | some q => if c == q then { n with closing := none } else n
  | none =>
    if c == '\'' || c == '"' || c == '\x60' then { n with closing := some c }
    else if c == '[' then { n with closing := some ']' }
    else if c == '(' then { n with depth := n.depth + 1 }
    else if c == ')' then { n with depth := n.depth - 1 }
    else n

end Nesting

namespace Outline

/-- The clause behind `current` that a keyword opens at the start of `t`, and the length of
the keyword. -/
def opens? (current : ClauseKind) (before : Option Char) (t : Text) : Option (ClauseKind × Nat) :=
  ClauseKind.openable.findSome? fun k =>
    if current.rank < k.rank then (k.keyword.length? before t).map fun n => (k, n) else none

/-- The rest of the body of the clause `current`, and the clauses behind it. `skip` is
how many characters of a keyword are still to be passed over, `before` the character in
front of the text. -/
def split (current : ClauseKind) (n : Nesting) (before : Option Char) :
    (skip : Nat) → Text → Text × List Clause
  | _, [] => ([], [])
  | skip + 1, c :: t => split current n (some c) skip t
  | 0, c :: t =>
      let next := n.read c
      match if next.isTop && n.closing.isNone then opens? current before (c :: t) else none with
      | some (kind, length) =>
          let rest := split kind next (some c) (length - 1) t
          ([], ⟨kind, Text.trim rest.1⟩ :: rest.2)
      | none =>
          let rest := split current next (some c) 0 t
          (c :: rest.1, rest.2)

/-- The top-level clauses of a text without its final semicolons. -/
def clausesOf (body : Text) : List Clause :=
  let parts := split .leading .top none 0 body
  let leading := Text.trim parts.1
  if leading.isEmpty then parts.2 else ⟨.leading, leading⟩ :: parts.2

/-- The text between the blanks around a statement, without its final semicolons. -/
def bodyOf (sql : Text) : Text :=
  Text.trimEnd (Text.dropEnd (· == ';') (Text.trim sql))

/-- The outline of a statement. -/
def scan (sql : Text) : Outline :=
  ⟨clausesOf (bodyOf sql), Text.endsWith (Text.trim sql) ";"⟩

end Outline

end SqlScribe
