import SqlScribe.Clause.Keyword

/-!
# Precedence

How the engine reads an expression: the text becomes tokens, each as long as it can be, and the
tokens a tree, in which an operator takes what stands next to it unless another one that binds
tighter does. Main statements:

* `Tree.rank_snoc`: an operator added on the right makes the tree as loose as the operator;
* `Tree.ordered_snoc`: no operand of an operator is looser than it, none on its right as loose;
* `Tree.flat_snoc`: the tree has the operators and operands it is read from, in their order.
-/

namespace SqlScribe

/-! ## Operators -/

/-- The binary operators of the engine. -/
inductive BinaryOp where
  | or | and
  | equal | same | unequal | differing | is | isNot | distinct | notDistinct
  | like | notLike | glob | notGlob | regexp | notRegexp | matching | notMatching
  | less | atMost | greater | atLeast
  | bitAnd | bitOr | shiftLeft | shiftRight
  | plus | minus
  | times | divide | remainder
  | concat | member | memberText
deriving DecidableEq, Repr

namespace BinaryOp

/-- The signs or words of an operator, words in capitals. -/
def spelling : BinaryOp → List Text
  | or => ["OR"] | and => ["AND"]
  | equal => ["="] | same => ["=="] | unequal => ["<>"] | differing => ["!="]
  | is => ["IS"] | isNot => ["IS", "NOT"]
  | distinct => ["IS", "DISTINCT", "FROM"] | notDistinct => ["IS", "NOT", "DISTINCT", "FROM"]
  | like => ["LIKE"] | notLike => ["NOT", "LIKE"] | glob => ["GLOB"] | notGlob => ["NOT", "GLOB"]
  | regexp => ["REGEXP"] | notRegexp => ["NOT", "REGEXP"]
  | matching => ["MATCH"] | notMatching => ["NOT", "MATCH"]
  | less => ["<"] | atMost => ["<="] | greater => [">"] | atLeast => [">="]
  | bitAnd => ["&"] | bitOr => ["|"] | shiftLeft => ["<<"] | shiftRight => [">>"]
  | plus => ["+"] | minus => ["-"]
  | times => ["*"] | divide => ["/"] | remainder => ["%"]
  | concat => ["||"] | member => ["->"] | memberText => ["->>"]

/-- How tight the operator binds. -/
def level : BinaryOp → Nat
  | or => 0
  | and => 1
  | equal | same | unequal | differing | is | isNot | distinct | notDistinct => 2
  | like | notLike | glob | notGlob | regexp | notRegexp | matching | notMatching => 2
  | less | atMost | greater | atLeast => 3
  | bitAnd | bitOr | shiftLeft | shiftRight => 4
  | plus | minus => 5
  | times | divide | remainder => 6
  | concat | member | memberText => 7

/-- All operators. -/
def all : List BinaryOp := [
  or, and, equal, same, unequal, differing, is, isNot, distinct, notDistinct, like, notLike, glob,
  notGlob, regexp, notRegexp, matching, notMatching, less, atMost, greater, atLeast, bitAnd, bitOr,
  shiftLeft, shiftRight, plus, minus, times, divide, remainder, concat, member, memberText]

/-- What operators are made of. -/
def words : List Text := all.flatMap spelling

/-- The operator that is written so. -/
def ofSpelling? (ws : List Text) : Option BinaryOp := all.find? fun o => o.spelling == ws

theorem ofSpelling?_spelling (o : BinaryOp) : ofSpelling? o.spelling = some o := by
  cases o <;> decide

theorem level_le (o : BinaryOp) : o.level ≤ 7 := by
  cases o <;> decide

end BinaryOp

/-! ## Tokens -/

/-- An operand of one token. -/
inductive Item where
  /-- A name or a number. -/
  | word (t : Text)
  /-- A literal with its quotes. -/
  | literal (t : Text)
deriving DecidableEq, Repr

inductive Token where
  | item (i : Item)
  /-- A sign or word of an operator, a word in capitals. -/
  | op (w : Text)
  | opening
  | closing
  | comma
  /-- What is no token of an expression: a literal that is not closed, a comment, another sign. -/
  | stray (t : Text)
deriving DecidableEq, Repr

/-- The signs that operators are made of and those that begin a comment, with all beginnings. -/
def signs : List Text := [
  "=", "==", "!", "!=", "<", "<=", "<>", "<<", ">", ">=", ">>", "&", "|", "||", "+", "-",
  "--", "->", "->>", "*", "/", "/*", "%"]

/-- The characters of names and numbers. -/
def isNameChar (c : Char) : Bool := isIdentifierChar c || c == '.'

/-- Whether a number has been read up to the sign of its exponent. -/
def endsInExponent (t : Text) : Bool :=
  t.getLast?.any (fun c => c == 'e' || c == 'E') && t.dropLast.all (fun c => c.isDigit || c == '.')
    && t.dropLast.any Char.isDigit

/-- The token that is being read. -/
inductive Pending where
  | nothing
  | word (t : Text)
  | sign (t : Text)
  | literal (t : Text)
  /-- A literal that is closed, unless one more quote follows. -/
  | closed (t : Text)
  | mark (c : Char)
deriving DecidableEq, Repr

namespace Pending

/-- What begins with a character. -/
def ofChar (c : Char) : Pending :=
  if isBlank c then nothing
  else if isNameChar c then word [c]
  else if c == '\'' then literal [c]
  else if signs.contains [c] then sign [c]
  else mark c

/-- The token goes on with a character. -/
def extend? : Pending → Char → Option Pending
  | word t, c =>
      if isNameChar c || (endsInExponent t && (c == '+' || c == '-')) then some (word (t ++ [c]))
      else none
  | sign t, c => if signs.contains (t ++ [c]) then some (sign (t ++ [c])) else none
  | literal t, c => some (if c == '\'' then closed (t ++ [c]) else literal (t ++ [c]))
  | closed t, c => if c == '\'' then some (literal (t ++ [c])) else none
  | nothing, _ => none
  | mark _, _ => none

/-- The token, if it ends here. -/
def tokens : Pending → List Token
  | nothing => []
  | word t =>
      [if BinaryOp.words.contains t.asciiUpper then .op t.asciiUpper else .item (.word t)]
  | sign t => [if BinaryOp.words.contains t then .op t else .stray t]
  | literal t => [.stray t]
  | closed t => [.item (.literal t)]
  | mark c =>
      [if c == '(' then .opening else if c == ')' then .closing else if c == ',' then .comma
        else .stray [c]]

end Pending

/-- The tokens of a text, when one is being read already. -/
def lexFrom (p : Pending) : Text → List Token
  | [] => p.tokens
  | c :: t =>
      match p.extend? c with
      | some q => lexFrom q t
      | none => p.tokens ++ lexFrom (.ofChar c) t

/-- The tokens of a text. -/
def lex (t : Text) : List Token := lexFrom .nothing t

/-! ## Trees -/

/-- An expression as the engine reads it. -/
inductive Tree where
  | item (i : Item)
  | negation (t : Tree)
  | binary (o : BinaryOp) (l r : Tree)
  /-- An expression in parentheses. -/
  | group (t : Tree)
  | call (name : Text) (args : List Tree)

namespace Tree

/-- How tight the outermost operator binds; what is no operation of two operands is tightest. -/
def rank : Tree → Nat
  | binary o _ _ => o.level
  | _ => 8

/-- The tree with one more operator and operand on the right. The operator takes what stands next to
it, up to an operator that is not tighter. -/
def snoc : Tree → BinaryOp → Tree → Tree
  | binary o l r, p, x =>
    if o.level < p.level then binary o l (r.snoc p x) else binary p (binary o l r) x
  | t, p, x => binary p t x

/-- The operands that are concatenated, from left to right. -/
def operands : Tree → List Tree
  | binary .concat l r => l.operands ++ r.operands
  | t => [t]

theorem snoc_of_level_le {t : Tree} {o : BinaryOp} (h : o.level ≤ t.rank) (x : Tree) :
    t.snoc o x = binary o t x := by
  cases t with
  | binary p l r => exact if_neg (Nat.not_lt.2 h)
  | _ => rfl

theorem snoc_of_rank_lt {p o : BinaryOp} (h : p.level < o.level) (l r x : Tree) :
    (binary p l r).snoc o x = binary p l (r.snoc o x) := if_pos h

theorem rank_of_ne {t : Tree} (h : ∀ o l r, t ≠ binary o l r) : t.rank = 8 := by
  cases t with
  | binary o l r => exact absurd rfl (h o l r)
  | _ => rfl

/-- An operator on the right makes a tree as loose as it is, if it was not looser before. -/
theorem rank_snoc (t : Tree) (o : BinaryOp) (x : Tree) :
    (t.snoc o x).rank = min t.rank o.level := by
  by_cases h : o.level ≤ t.rank
  · rw [snoc_of_level_le h, Nat.min_eq_right h]
    rfl
  · cases t with
    | binary p l r =>
      have hp : p.level < o.level := Nat.not_le.1 h
      rw [snoc_of_rank_lt hp]
      exact (Nat.min_eq_left (Nat.le_of_lt hp)).symm
    | _ => exact absurd (Nat.le_succ_of_le o.level_le) h

/-- What is looser than `||` is one operand. -/
theorem operands_of_rank_ne {t : Tree} (h : t.rank ≠ 7) : t.operands = [t] := by
  cases t with
  | binary o l r =>
    cases o <;> first | rfl | exact absurd rfl h
  | _ => rfl

theorem operands_ne_nil (t : Tree) : t.operands ≠ [] := by
  induction t using operands.induct with
  | case1 l r hl _ => exact List.append_ne_nil_of_left_ne_nil hl _
  | case2 t h =>
    rw [operands]
    · exact List.cons_ne_nil t []
    · exact h

/-- No operator has an operand that is looser, or one on its right that is as loose. -/
def Ordered : Tree → Prop
  | binary o l r => o.level ≤ l.rank ∧ o.level < r.rank ∧ l.Ordered ∧ r.Ordered
  | _ => True

/-- **Trees are built by precedence.** -/
theorem ordered_snoc {t x : Tree} (ht : t.Ordered) (hx : x.Ordered) (hrank : x.rank = 8)
    (o : BinaryOp) : (t.snoc o x).Ordered := by
  have hxrank : o.level < x.rank := hrank ▸ Nat.lt_succ_of_le o.level_le
  induction t, o, x using snoc.induct with
  | case1 p l r o x h ih =>
    obtain ⟨hl, hr, hleft, hright⟩ := ht
    rw [snoc_of_rank_lt h]
    refine ⟨hl, ?_, hleft, ih hright hx hrank hxrank⟩
    rw [rank_snoc]
    exact Nat.lt_min.2 ⟨hr, h⟩
  | case2 p l r o x h =>
    have hlevel : o.level ≤ (binary p l r).rank := Nat.not_lt.1 h
    rw [snoc_of_level_le hlevel]
    exact ⟨hlevel, hxrank, ht, hx⟩
  | case3 t o x h =>
    have hlevel : o.level ≤ t.rank := rank_of_ne h ▸ Nat.le_succ_of_le o.level_le
    rw [snoc_of_level_le hlevel]
    exact ⟨hlevel, hxrank, ht, hx⟩

/-- The operators of a tree and what they stand between, from left to right. -/
def flat : Tree → List (BinaryOp ⊕ Tree)
  | binary o l r => l.flat ++ .inl o :: r.flat
  | t => [.inr t]

theorem flat_of_rank {t : Tree} (h : t.rank = 8) : t.flat = [.inr t] := by
  cases t with
  | binary o l r => exact absurd (h ▸ o.level_le : 8 ≤ 7) (by decide)
  | _ => rfl

/-- **A tree has the operators and operands it is read from,** in their order. -/
theorem flat_snoc {t x : Tree} (hrank : x.rank = 8) (o : BinaryOp) :
    (t.snoc o x).flat = t.flat ++ [.inl o, .inr x] := by
  have hadded : ∀ {t : Tree}, o.level ≤ t.rank → (t.snoc o x).flat = t.flat ++ [.inl o, .inr x] :=
    fun h => by rw [snoc_of_level_le h, flat, flat_of_rank hrank]
  induction t, o, x using snoc.induct with
  | case1 p l r o x h ih =>
    rw [snoc_of_rank_lt h, flat, ih hrank hadded, flat, List.append_assoc, List.cons_append]
  | case2 p l r o x h => exact hadded (Nat.not_lt.1 h)
  | case3 t o x h => exact hadded (rank_of_ne h ▸ Nat.le_succ_of_le o.level_le)

end Tree

/-! ## Reading -/

/-- An expression that is being read: an operand is missing, with what has been read of the operator
in front of it and the minus signs behind that, or none is. -/
inductive PartialTree where
  | missing (before : Option (Tree × List Text)) (minuses : Nat)
  | done (t : Tree)

namespace PartialTree

/-- Nothing is read yet. -/
def start : PartialTree := missing none 0

/-- A minus takes no more than the operand behind it. -/
def operand? : PartialTree → Tree → Option PartialTree
  | missing none n, t => some (done (Nat.repeat .negation n t))
  | missing (some (l, ws)) n, t =>
      (BinaryOp.ofSpelling? ws).map fun o => done (l.snoc o (Nat.repeat .negation n t))
  | done _, _ => none

/-- One more sign or word. -/
def operator? : PartialTree → Text → Option PartialTree
  | missing before n, ['-'] => some (missing before (n + 1))
  | missing (some (l, ws)) 0, w => some (missing (some (l, ws ++ [w])) 0)
  | missing _ _, _ => none
  | done t, w => some (missing (some (t, [w])) 0)

end PartialTree

/-- What has been opened and is being read: the arguments of a function, or an expression in
parentheses. -/
structure Frame where
  name : Option Text
  args : List Tree
  reading : PartialTree

namespace Frame

/-- What is read in parentheses, of a function or of none. -/
def opened (name : Option Text) : Frame := ⟨name, [], .start⟩

def put? (f : Frame) (r : Option PartialTree) : Option Frame :=
  r.map fun x => { f with reading := x }

/-- The next argument of a function. -/
def next? : Frame → Option Frame
  | ⟨some name, args, .done t⟩ => some ⟨some name, args ++ [t], .start⟩
  | _ => none

/-- What has been read when the parenthesis is closed. -/
def whole? : Frame → Option Tree
  | ⟨some name, args, .done t⟩ => some (.call name (args ++ [t]))
  | ⟨none, _, .done t⟩ => some (.group t)
  | _ => none

end Frame

/-- Reads the tokens within the frame `f`, which stands in the frames `fs`. -/
def parseFrom (f : Frame) (fs : List Frame) : List Token → Option Tree
  | [] =>
      match f, fs with
      | ⟨none, _, .done t⟩, [] => some t
      | _, _ => none
  | .item (.word w) :: .opening :: ks => parseFrom (.opened (some w)) (f :: fs) ks
  | .item i :: ks =>
      match f.put? (f.reading.operand? (.item i)) with
      | some g => parseFrom g fs ks
      | none => none
  | .op w :: ks =>
      match f.put? (f.reading.operator? w) with
      | some g => parseFrom g fs ks
      | none => none
  | .opening :: ks => parseFrom (.opened none) (f :: fs) ks
  | .comma :: ks =>
      match f.next? with
      | some g => parseFrom g fs ks
      | none => none
  | .closing :: ks =>
      match f.whole?, fs with
      | some t, g :: gs =>
          match g.put? (g.reading.operand? t) with
          | some h => parseFrom h gs ks
          | none => none
      | _, _ => none
  | .stray _ :: _ => none

/-- The expression that a text is read as. -/
def parse (t : Text) : Option Tree := parseFrom (.opened none) [] (lex t)

example : (parse "-a * b || 'x' is not (c)").isSome = true := by decide

end SqlScribe
