import SqlScribe.Text.Class

/-!
# Patterns

A pattern describes a piece of text. From a place in a text it may be followed in
several ways, and `ways` lists them in order of preference: the first alternative
before the second, a repetition as long as it can be, or as short as it can be when
it is lazy. `first` looks for the most preferred way after which the rest of a search
succeeds, without listing the others; `first_eq` says that this is what it finds.
-/

namespace SqlScribe

/-! ## Classes of characters -/

/-- The letter that stands for all its forms: ASCII capitals, the long s and the Kelvin
sign count as the letters they are forms of. -/
def simpleFold (c : Char) : Char :=
  if c == 'ſ' then 's' else if c == '\u212a' then 'k' else c.toLower

/-- A set of characters. -/
inductive CharClass where
  | any
  | among (cs : List Char)
  | span (first last : Char)
  /-- All forms of one letter. -/
  | letter (c : Char)
  | blank
  | decimal
  | word
  | either (a b : CharClass)
  /-- Every character but those of the class. -/
  | other (a : CharClass)
deriving DecidableEq, Repr

/-- Whether a character belongs to the class. -/
def CharClass.has : CharClass → Char → Bool
  | any, _ => true
  | among cs, c => cs.contains c
  | span a b, c => a ≤ c && c ≤ b
  | letter a, c => simpleFold a == simpleFold c
  | blank, c => isBlank c
  | decimal, c => isDecimal c
  | word, c => isWordChar c
  | either a b, c => a.has c || b.has c
  | other a, c => !a.has c

/-! ## Places of a text -/

/-- A condition on a place of a text that takes no character. -/
inductive Anchor where
  | textStart
  | textEnd
  | lineStart
  | lineEnd
  /-- A word begins or ends here. -/
  | wordEdge
deriving DecidableEq, Repr

/-- Whether the condition holds between the character `before` and the text `rest`. -/
def Anchor.holds (before : Option Char) (rest : Text) : Anchor → Bool
  | textStart => before.isNone
  | textEnd => rest.isEmpty
  | lineStart => before.isNone || before == some '\n'
  | lineEnd => rest.isEmpty || rest.head? == some '\n'
  | wordEdge => before.any isWordChar != rest.head?.any isWordChar

/-- A captured piece of text, given by the text from its start on and the text behind
it. -/
structure Capture where
  number : Nat
  start : Text
  stop : Text
deriving DecidableEq, Repr

/-- The captured text. -/
def Capture.text (g : Capture) : Text := g.start.take (g.start.length - g.stop.length)

/-- A place in a text: the character in front of it, the text behind it, and what was
captured on the way there, the latest first. -/
structure Cursor where
  before : Option Char
  rest : Text
  captures : List Capture
deriving DecidableEq, Repr

namespace Cursor

/-- The later place `d`, with what lies between captured under a number. -/
def capture (c : Cursor) (n : Nat) (d : Cursor) : Cursor :=
  { d with captures := ⟨n, c.rest, d.rest⟩ :: d.captures }

/-- The place behind one character of the class. -/
def one? (k : CharClass) (c : Cursor) : Option Cursor :=
  match c.rest with
  | [] => none
  | x :: t => if k.has x then some ⟨some x, t, c.captures⟩ else none

/-- The last character of the longest run of the class, and what follows the run. -/
def spanRun (k : CharClass) : Option Char → Text → Option Char × Text
  | b, [] => (b, [])
  | b, x :: t => if k.has x then spanRun k (some x) t else (b, x :: t)

/-- The place behind the longest run of characters of the class. -/
def run (k : CharClass) (c : Cursor) : Cursor :=
  let r := spanRun k c.before c.rest
  ⟨r.1, r.2, c.captures⟩

end Cursor

/-! ## Patterns and the ways to follow them -/

/-- What a piece of text may look like. -/
inductive Pattern where
  | empty
  | one (k : CharClass)
  /-- The longest run of characters of the class, possibly empty and always taken whole. -/
  | run (k : CharClass)
  | anchor (a : Anchor)
  | seq (p q : Pattern)
  /-- Either pattern, the first one by preference. -/
  | alt (p q : Pattern)
  /-- Any number of times, as often as possible by preference. -/
  | star (p : Pattern)
  /-- Any number of times, as seldom as possible by preference. -/
  | lazyStar (p : Pattern)
  /-- Only the most preferred way to follow the pattern. -/
  | commit (p : Pattern)
  /-- The pattern, with its text captured under a number. -/
  | group (n : Nat) (p : Pattern)
deriving DecidableEq, Repr

namespace Pattern

instance : Append Pattern := ⟨seq⟩

/-- The ways to take up to `n` steps, longer ones first. -/
def longestFirst (step : Cursor → List Cursor) : (n : Nat) → Cursor → List Cursor
  | 0, c => [c]
  | n + 1, c => (step c).flatMap (longestFirst step n) ++ [c]

/-- The ways to take up to `n` steps, shorter ones first. -/
def shortestFirst (step : Cursor → List Cursor) : (n : Nat) → Cursor → List Cursor
  | 0, c => [c]
  | n + 1, c => c :: (step c).flatMap (shortestFirst step n)

/-- Every place a pattern leads to, in order of preference. A repetition takes at most as
many steps as there are characters left. -/
def ways : Pattern → Cursor → List Cursor
  | empty, c => [c]
  | one k, c => (c.one? k).toList
  | run k, c => [c.run k]
  | anchor a, c => if a.holds c.before c.rest then [c] else []
  | seq p q, c => (ways p c).flatMap (ways q)
  | alt p q, c => ways p c ++ ways q c
  | star p, c => longestFirst (ways p) c.rest.length c
  | lazyStar p, c => shortestFirst (ways p) c.rest.length c
  | commit p, c => (ways p c).take 1
  | group n p, c => (ways p c).map (c.capture n)

/-! ## Finding the first way -/

/-- What is to be done from a place on. -/
abbrev Continuation := Cursor → Option Cursor

/-- Takes up to `n` steps and goes on with `k`; more steps are tried before fewer. -/
def tryLongest (step : Cursor → Continuation → Option Cursor) :
    (n : Nat) → Cursor → Continuation → Option Cursor
  | 0, c, k => k c
  | n + 1, c, k => (step c fun d => tryLongest step n d k) <|> k c

/-- Takes up to `n` steps and goes on with `k`; fewer steps are tried before more. -/
def tryShortest (step : Cursor → Continuation → Option Cursor) :
    (n : Nat) → Cursor → Continuation → Option Cursor
  | 0, c, k => k c
  | n + 1, c, k => k c <|> step c fun d => tryShortest step n d k

/-- Where `k` leads from the most preferred way from which it leads anywhere. -/
def first : Pattern → Cursor → Continuation → Option Cursor
  | empty, c, k => k c
  | one cl, c, k => (c.one? cl).bind k
  | run cl, c, k => k (c.run cl)
  | anchor a, c, k => if a.holds c.before c.rest then k c else none
  | seq p q, c, k => first p c fun d => first q d k
  | alt p q, c, k => first p c k <|> first q c k
  | star p, c, k => tryLongest (first p) c.rest.length c k
  | lazyStar p, c, k => tryShortest (first p) c.rest.length c k
  | commit p, c, k => (first p c some).bind k
  | group n p, c, k => first p c fun d => k (c.capture n d)

private theorem findSome?_flatMap (f : Cursor → List Cursor) (k : Continuation)
    (cs : List Cursor) :
    (cs.flatMap f).findSome? k = cs.findSome? fun c => (f c).findSome? k := by
  induction cs with
  | nil => rfl
  | cons c cs ih =>
    rw [List.flatMap_cons, List.findSome?_append, ih, List.findSome?_cons]
    cases (f c).findSome? k <;> rfl

private theorem orElse_eq_or (a b : Option Cursor) : (a <|> b) = a.or b := by
  cases a <;> rfl

theorem tryLongest_eq {step : Cursor → Continuation → Option Cursor}
    {steps : Cursor → List Cursor} (h : ∀ c k, step c k = (steps c).findSome? k) (n : Nat)
    (c : Cursor) (k : Continuation) :
    tryLongest step n c k = (longestFirst steps n c).findSome? k := by
  induction n generalizing c with
  | zero => simp [tryLongest, longestFirst]
  | succ n ih =>
    simp only [tryLongest, longestFirst, h, List.findSome?_append, findSome?_flatMap, ih,
      orElse_eq_or]
    simp

theorem tryShortest_eq {step : Cursor → Continuation → Option Cursor}
    {steps : Cursor → List Cursor} (h : ∀ c k, step c k = (steps c).findSome? k) (n : Nat)
    (c : Cursor) (k : Continuation) :
    tryShortest step n c k = (shortestFirst steps n c).findSome? k := by
  induction n generalizing c with
  | zero => simp [tryShortest, shortestFirst]
  | succ n ih =>
    simp only [tryShortest, shortestFirst, h, findSome?_flatMap, List.findSome?_cons, ih,
      orElse_eq_or]
    cases k c <;> rfl

/-- The search finds the first of all ways from which it can go on. -/
theorem first_eq (p : Pattern) (c : Cursor) (k : Continuation) :
    first p c k = (ways p c).findSome? k := by
  induction p generalizing c k with
  | empty => simp [first, ways]
  | one cl => cases h : c.one? cl <;> simp [first, ways, h]
  | run cl => simp [first, ways]
  | anchor a => by_cases h : a.holds c.before c.rest <;> simp [first, ways, h]
  | seq p q ihp ihq => simp only [first, ways, ihp, findSome?_flatMap, ihq]
  | alt p q ihp ihq =>
    simp only [first, ways, ihp, ihq, List.findSome?_append, orElse_eq_or]
  | star p ih => exact tryLongest_eq ih _ c k
  | lazyStar p ih => exact tryShortest_eq ih _ c k
  | commit p ih =>
    simp only [first, ways, ih]
    cases ways p c <;> simp
  | group n p ih => simp only [first, ways, ih, List.findSome?_map]; rfl

/-! ## Composite patterns -/

/-- The characters of a text, as they are. -/
def literal (t : Text) : Pattern := t.foldr (fun c p => one (.among [c]) ++ p) empty

/-- The letters of a text, in any case. -/
def letters (t : Text) : Pattern := t.foldr (fun c p => one (.letter c) ++ p) empty

/-- One of several patterns, earlier ones by preference. -/
def oneOf : List Pattern → Pattern
  | [] => one (.among [])
  | [p] => p
  | p :: ps => alt p (oneOf ps)

/-- The pattern or nothing, the pattern by preference. -/
def opt (p : Pattern) : Pattern := alt p empty

/-- A run of at least one character of the class. -/
def run1 (k : CharClass) : Pattern := one k ++ run k

/-- Exactly `n` times. -/
def times : Nat → Pattern → Pattern
  | 0, _ => empty
  | n + 1, p => p ++ times n p

/-- At most `n` times, as often as possible by preference. -/
def upTo : Nat → Pattern → Pattern
  | 0, _ => empty
  | n + 1, p => opt (p ++ upTo n p)

/-- At least one character of the class, as few as possible by preference. -/
def lazy1 (k : CharClass) : Pattern := one k ++ lazyStar (one k)

/-- Any number of characters of the class, as many as possible by preference. -/
def many (k : CharClass) : Pattern := star (one k)

/-- The run of blanks, which may be empty. -/
def blanks : Pattern := run .blank

/-- A run of at least one blank. -/
def blanks1 : Pattern := run1 .blank

/-- A word may begin or end here. -/
def edge : Pattern := anchor .wordEdge

end Pattern

end SqlScribe
