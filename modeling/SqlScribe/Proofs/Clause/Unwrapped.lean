import SqlScribe.Proofs.Clause.Replaced

/-!
# Names that lose their brackets

A name in brackets is a quotation. Without its brackets it is read with the text around it, and its
characters may go on with an identifier in front of it, or in front of one behind it. A word is
added only where an identifier that has a character of such a name is the word. Main statements:

* `Text.passed_name_le`: the name itself;
* `Text.censusFrom_unwrapped_le`: a text and the names in it;
* `Outline.spares_unwrapped`: a clause.
-/

namespace SqlScribe

open Outline

namespace Text

/-! ## Marked characters -/

/-- The identifiers of a text of which some characters are marked, in order. Between signs that
stand side by side there is an empty one. -/
def identifiers (s : List (Char × Bool)) : List (List (Char × Bool)) :=
  s.splitOnP fun x => !isIdentifierChar x.1

/-- The characters of an identifier, in capitals. -/
def capitals (r : List (Char × Bool)) : Text := r.map fun x => x.1.toUpper

/-- No identifier with a marked character is the word, given in capitals. -/
def NoneMarked (w : Text) (s : List (Char × Bool)) : Prop :=
  ∀ r ∈ identifiers s, (∃ x ∈ r, x.2 = true) → capitals r ≠ w

instance (w : Text) (s : List (Char × Bool)) : Decidable (NoneMarked w s) := by
  unfold NoneMarked
  infer_instance

variable {w run u : Text} {n : Nesting} {r s : List (Char × Bool)} {c : Char} {b : Bool}

/-- The beginning of an identifier. -/
def IsRun (r : List (Char × Bool)) : Prop := ∀ x ∈ r, isIdentifierChar x.1 = true

theorem isRun_nil : IsRun [] := fun _ hx => absurd hx List.not_mem_nil

theorem IsRun.concat (hr : IsRun r) (hc : isIdentifierChar c = true) (b : Bool) :
    IsRun (r ++ [(c, b)]) :=
  List.forall_mem_append.2 ⟨hr, fun _ hx => List.mem_singleton.1 hx ▸ hc⟩

theorem capitals_concat (r : List (Char × Bool)) (c : Char) (b : Bool) :
    capitals (r ++ [(c, b)]) = capitals r ++ [c.toUpper] := List.map_append

theorem NoneMarked.ne_of_run (h : NoneMarked w r) (hr : IsRun r) (hmarked : ∃ x ∈ r, x.2 = true) :
    capitals r ≠ w := by
  refine h r ?_ hmarked
  rw [identifiers, List.splitOnP_eq_singleton fun x hx => by simp [hr x hx]]
  exact List.mem_singleton_self r

/-- A sign parts the identifiers in front of it from those behind it. -/
theorem NoneMarked.of_sign (h : NoneMarked w (r ++ (c, b) :: s)) (hc : isIdentifierChar c = false) :
    NoneMarked w r ∧ NoneMarked w s := by
  rw [NoneMarked, identifiers, List.splitOnP_append_cons r s (by simp [hc])] at h
  exact List.forall_mem_append.1 h

/-- What has been read of an identifier in the new text, where `run` has been read of it in the old
one: a character is marked, or it is the same. -/
def Reads (run : Text) (r : List (Char × Bool)) : Prop :=
  IsRun r ∧ ((∃ x ∈ r, x.2 = true) ∨ capitals r = run)

theorem reads_nil : Reads [] [] := ⟨isRun_nil, Or.inr rfl⟩

/-- An identifier that has been read is the word in the new text only if it is so in the old one. -/
theorem Reads.closes_le (h : Reads run r) (hnone : NoneMarked w r) (n : Nesting) :
    closes w n (capitals r) ≤ closes w n run := by
  rcases h.2 with hmarked | rfl
  · rw [closes, if_neg (by simp [hnone.ne_of_run h.1 hmarked])]
    exact Nat.zero_le _
  · exact Nat.le_refl _

/-- **A name** passes a word only by ending the identifier in front of it. Behind it an identifier
goes on only with a character of the name. -/
theorem passed_name_le (hw : w ≠ []) (hr : Reads run r)
    (h : NoneMarked w (r ++ (u.map (·, true) ++ s))) (n : Nesting) :
    passed w n (capitals r) u ≤ closes w n run ∧ ∃ r', runAfter (capitals r) u = capitals r' ∧
      Reads (if u = [] then run else []) r' ∧ NoneMarked w (r' ++ s) := by
  induction u generalizing n run r with
  | nil => exact ⟨Nat.zero_le _, r, rfl, hr, h⟩
  | cons c u ih =>
    have hbehind : ∀ {r}, Reads [] r → NoneMarked w (r ++ (u.map (·, true) ++ s)) →
        passed w (n.read c) (capitals r) u = 0 ∧ ∃ r', runAfter (capitals r) u = capitals r' ∧
          Reads [] r' ∧ NoneMarked w (r' ++ s) := fun hr h => by
      obtain ⟨hpassed, hrest⟩ := ih hr h (n.read c)
      rw [closes_nil hw, Nat.le_zero] at hpassed
      rw [ite_self] at hrest
      exact ⟨hpassed, hrest⟩
    rw [if_neg (List.cons_ne_nil c u), passed, runAfter]
    cases hc : isIdentifierChar c with
    | true =>
      have hmarked : Reads [] (r ++ [(c, true)]) :=
        ⟨hr.1.concat hc true, Or.inl ⟨(c, true), by simp, rfl⟩⟩
      obtain ⟨hpassed, hrest⟩ := hbehind hmarked (by simpa using h)
      rw [capitals_concat] at hpassed hrest
      rw [if_pos rfl, if_pos rfl]
      exact ⟨hpassed.trans_le (Nat.zero_le _), hrest⟩
    | false =>
      obtain ⟨hfront, h⟩ := h.of_sign hc
      obtain ⟨hpassed, hrest⟩ := hbehind reads_nil h
      rw [if_neg Bool.false_ne_true, if_neg Bool.false_ne_true]
      exact ⟨Nat.add_le_add (hr.closes_le hfront n) (le_of_eq hpassed), hrest⟩

/-! ## Texts and their names -/

/-- The characters of a text in which matches are replaced, each with whether it is one of a name
that stood in brackets. -/
def unwrapped (f : Match → Text) (ps : List Piece) : List (Char × Bool) :=
  ps.flatMap fun
    | .plain c => [(c, false)]
    | .hit m => (f m).map (·, m.text.head? == some '[')

/-- A match of a name in brackets, of which the name is left. The nesting is the same in front of it
and behind it, and with the brackets and without. -/
structure Unwraps (f : Match → Text) (n : Nesting) (m : Match) : Prop where
  text_eq : m.text = '[' :: (f m ++ [']'])
  ne_nil : f m ≠ []
  nesting : nestingAfter n m.text = n
  nesting_name : nestingAfter n (f m) = n

/-- **Names that lose their brackets** add no word where no identifier with a character of theirs is
the word. -/
theorem censusFrom_unwrapped_le (hw : w ≠ []) {f : Match → Text} {ps : List Piece}
    (hps : ∀ x ∈ placed n ps, Unwraps f x.1 x.2) (hr : Reads run r)
    (h : NoneMarked w (r ++ unwrapped f ps)) :
    censusFrom w n (capitals r) (ps.flatMap fun
        | .plain c => [c]
        | .hit m => f m) ≤ censusFrom w n run (ps.flatMap Piece.text) ∧
      nestingAfter n (ps.flatMap fun
        | .plain c => [c]
        | .hit m => f m) = nestingAfter n (ps.flatMap Piece.text) := by
  induction ps generalizing n run r with
  | nil =>
    rw [unwrapped, List.flatMap_nil, List.append_nil] at h
    have hclosed := hr.closes_le h n
    exact ⟨by simpa [censusFrom, passed, runAfter, nestingAfter] using hclosed, rfl⟩
  | cons p ps ih =>
    rw [List.flatMap_cons, List.flatMap_cons]
    rw [unwrapped, List.flatMap_cons, ← unwrapped] at h
    cases p with
    | plain c =>
      rw [placed] at hps
      cases hc : isIdentifierChar c with
      | true =>
        have hreads : Reads (run ++ [c.toUpper]) (r ++ [(c, false)]) := by
          refine ⟨hr.1.concat hc false, ?_⟩
          rcases hr.2 with ⟨x, hx, hmark⟩ | rfl
          · exact Or.inl ⟨x, List.mem_append_left _ hx, hmark⟩
          · exact Or.inr (capitals_concat r c false)
        have hrest := ih hps hreads (by rwa [List.append_assoc])
        rw [capitals_concat] at hrest
        rw [Piece.text, List.singleton_append, List.singleton_append, censusFrom_cons_char hc,
          censusFrom_cons_char hc]
        exact hrest
      | false =>
        obtain ⟨hfront, hbehind⟩ := h.of_sign hc
        obtain ⟨hle, hnesting⟩ := ih hps reads_nil hbehind
        rw [Piece.text, List.singleton_append, List.singleton_append, censusFrom_cons_sign hc,
          censusFrom_cons_sign hc]
        exact ⟨Nat.add_le_add (hr.closes_le hfront n) hle, hnesting⟩
    | hit m =>
      rw [placed, List.forall_mem_cons] at hps
      obtain ⟨⟨htext, hne, hnesting, hname⟩, hps⟩ := hps
      have hmark : (m.text.head? == some '[') = true := by rw [htext]; rfl
      simp only [hmark] at h
      obtain ⟨hpassed, r', hrun, hreads, hnone⟩ := passed_name_le hw hr h n
      rw [if_neg hne] at hreads
      -- the first bracket ends the identifier in front of the name, and the last one ends the name
      have hold : closes w n run ≤ passed w n run m.text ∧ runAfter run m.text = [] := by
        rw [htext, passed, if_neg (by decide), runAfter, if_neg (by decide)]
        refine ⟨Nat.le_add_right _ _, runAfter_of_last fun c hc => ?_⟩
        rw [List.getLast?_concat] at hc
        exact Option.some.inj hc ▸ by decide
      rw [hnesting] at hps
      obtain ⟨hle, hrest⟩ := ih hps hreads hnone
      rw [Piece.text, nestingAfter_append, nestingAfter_append, censusFrom_append,
        censusFrom_append, hrun, hold.2, hnesting, hname]
      exact ⟨Nat.add_le_add (hpassed.trans hold.1) hle, hrest⟩

end Text

namespace Outline

/-- A clause in which names lose their brackets. -/
theorem spares_unwrapped {w : Text} (hw : w ≠ []) {p : Pattern} {f : Match → Text} {c : Clause}
    (hps : ∀ x ∈ p.placedIn c.body, Text.Unwraps f x.1 x.2)
    (h : Text.NoneMarked w (Text.unwrapped f (p.pieces c.body))) :
    Spares w c ⟨c.kind, p.replaceAll f c.body⟩ := by
  obtain ⟨hle, hnesting⟩ := Text.censusFrom_unwrapped_le hw hps Text.reads_nil h
  rw [Pattern.text_pieces] at hle hnesting
  exact ⟨rfl, hle, hnesting⟩

end Outline

end SqlScribe
