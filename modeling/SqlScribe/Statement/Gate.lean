import SqlScribe.Statement.Basic
import SqlScribe.Text.Case

/-!
# The gate

Every statement passes the gate before it is converted and before it is run. It
lets a single, short `SELECT` through and refuses everything else, for the first
reason that holds in this order: a forbidden keyword anywhere in the lower-cased
text, no `select` at the start, too many bytes, more than one segment.
-/

namespace SqlScribe

/-- Why the gate refuses a statement. -/
inductive Rejection where
  /-- A forbidden keyword stands somewhere in the text, in a literal or a name too. -/
  | forbidden (keyword : Text)
  /-- The text does not begin with `select`. -/
  | notSelect
  /-- The text takes more bytes than `Statement.maxBytes`. -/
  | tooLong
  /-- More than one part between semicolons holds something. -/
  | several
deriving DecidableEq, Repr

namespace Statement

/-- The most bytes a statement may take. -/
def maxBytes : Nat := 2048

/-- The texts no statement may contain, in the order they are looked for. -/
def forbiddenKeywords : List Text := [
  "drop", "delete", "insert", "update", "alter", "create", "truncate", "grant", "revoke",
  "exec", "execute", "union", "information_schema", "pg_", "mysql.", "xp_", "sp_",
  "--", "/*", "*/"]

/-- The text as the gate reads it: without the blanks around it, in lower case. -/
def folded (sql : Text) : Text := (Text.trim sql).lowercase

/-- The first forbidden keyword that occurs in the statement. -/
def forbiddenIn? (sql : Text) : Option Text :=
  forbiddenKeywords.find? fun k => Text.occursIn k (folded sql)

/-- Whether the statement, less one `;` at its end, begins with `select`. -/
def beginsWithSelect (sql : Text) : Bool :=
  let lower := folded sql
  let body := Text.trimEnd (if Text.endsWith lower [';'] then lower.dropLast else lower)
  Text.startsWith body "select"

/-- Why the gate refuses the statement, `none` when it lets it through. -/
def rejection? (sql : Text) : Option Rejection :=
  match forbiddenIn? sql with
  | some k => some (.forbidden k)
  | none =>
    if !beginsWithSelect sql then some .notSelect
    else if maxBytes < Text.utf8Size sql then some .tooLong
    else if 1 < segmentCount sql then some .several
    else none

/-- The gate lets the statement through. -/
def Accepted (sql : Text) : Prop := rejection? sql = none

instance (sql : Text) : Decidable (Accepted sql) := inferInstanceAs (Decidable (_ = _))

end Statement

/-- The sentence that tells a reader why a statement was refused. -/
def Rejection.message : Rejection → Text
  | forbidden k => "forbidden keyword detected: " ++ k
  | notSelect => "only SELECT statements are allowed"
  | tooLong => "statement is longer than " ++ Text.ofNat Statement.maxBytes ++ " bytes"
  | several => "only a single SELECT statement is allowed"

end SqlScribe
