import SqlScribe.Pattern.Basic

/-!
# Searching a text for a pattern

`pieces p t` takes a text apart from left to right into the matches of a pattern and
the characters between them. A match is found at the first place where there is one,
follows the most preferred way from there, and is never empty; the search goes on
behind it. Finding and replacing read off the pieces, and `text_pieces` says that the
pieces are the whole text.
-/

namespace SqlScribe

/-- A piece of text that follows a pattern. -/
structure Match where
  /-- The character in front of the match. -/
  before : Option Char
  text : Text
  groups : List (Nat × Text)
  /-- The text behind the match. -/
  after : Text
deriving DecidableEq, Repr

/-- The text captured under a number, `none` when the match did not go that way. -/
def Match.group? (m : Match) (n : Nat) : Option Text := m.groups.lookup n

/-- The text captured under a number, empty when the match did not go that way. -/
def Match.group (m : Match) (n : Nat) : Text := (m.group? n).getD []

/-- A piece of a searched text. -/
inductive Piece where
  | plain (c : Char)
  | hit (m : Match)
deriving DecidableEq, Repr

/-- The text of a piece. -/
def Piece.text : Piece → Text
  | plain c => [c]
  | hit m => m.text

/-- The match a piece is. -/
def Piece.hit? : Piece → Option Match
  | plain _ => none
  | hit m => some m

namespace Pattern

/-- The match at the start of a text behind `before`. -/
def matchAt? (p : Pattern) (before : Option Char) (t : Text) : Option Match :=
  match p.first ⟨before, t, []⟩ some with
  | none => none
  | some d =>
      let text := t.take (t.length - d.rest.length)
      if text.isEmpty then none
      else
        some ⟨before, text, d.captures.map fun g => (g.number, g.text), t.drop text.length⟩

/-- The pieces of the text behind `before`; the first `skip` characters belong to a match
that has been found already. -/
def piecesFrom (p : Pattern) (before : Option Char) : (skip : Nat) → Text → List Piece
  | _, [] => []
  | skip + 1, c :: t => piecesFrom p (some c) skip t
  | 0, c :: t =>
      match p.matchAt? before (c :: t) with
      | some m => .hit m :: piecesFrom p (some c) (m.text.length - 1) t
      | none => .plain c :: piecesFrom p (some c) 0 t

/-- The text taken apart into matches and the characters between them. -/
def pieces (p : Pattern) (t : Text) : List Piece := piecesFrom p none 0 t

/-- The matches, from left to right. -/
def findAll (p : Pattern) (t : Text) : List Match := (pieces p t).filterMap Piece.hit?

/-- The first match. -/
def find? (p : Pattern) (t : Text) : Option Match := (findAll p t).head?

/-- The text with every match replaced. -/
def replaceAll (p : Pattern) (f : Match → Text) (t : Text) : Text :=
  (pieces p t).flatMap fun
    | .plain c => [c]
    | .hit m => f m

/-! ## The pieces are the text -/

/-- A match is not empty, and the searched text goes on behind it. -/
theorem matchAt?_text {p : Pattern} {before : Option Char} {t : Text} {m : Match}
    (h : p.matchAt? before t = some m) : m.text ≠ [] ∧ m.text ++ m.after = t := by
  unfold matchAt? at h
  simp only at h
  split at h
  · simp at h
  · next d hd =>
    split at h
    · simp at h
    · next hne =>
      simp only [Option.some.injEq] at h
      subst h
      refine ⟨by simpa [List.isEmpty_iff] using hne, ?_⟩
      simp only [List.length_take]
      rcases Nat.le_total (t.length - d.rest.length) t.length with hl | hl
      · rw [Nat.min_eq_left hl, List.take_append_drop]
      · rw [Nat.min_eq_right hl, List.take_of_length_le hl, List.drop_length, List.append_nil]

theorem text_piecesFrom (p : Pattern) (before : Option Char) (skip : Nat) (t : Text) :
    (piecesFrom p before skip t).flatMap Piece.text = t.drop skip := by
  induction t generalizing before skip with
  | nil => cases skip <;> simp [piecesFrom]
  | cons c t ih =>
    cases skip with
    | succ skip => simpa [piecesFrom] using ih (some c) skip
    | zero =>
      unfold piecesFrom
      split
      · next m hm =>
        obtain ⟨hne, happ⟩ := matchAt?_text hm
        rw [List.flatMap_cons, ih]
        obtain ⟨x, r, hx⟩ := List.exists_cons_of_ne_nil hne
        rw [hx] at happ
        simp only [List.cons_append, List.cons.injEq] at happ
        obtain ⟨rfl, rfl⟩ := happ
        simp [Piece.text, hx]
      · simp [Piece.text, ih]

/-- Nothing is lost or added when a text is taken apart. -/
theorem text_pieces (p : Pattern) (t : Text) : (pieces p t).flatMap Piece.text = t := by
  simpa [pieces] using text_piecesFrom p none 0 t

end Pattern

end SqlScribe
