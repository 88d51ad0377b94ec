import SqlScribe.Proofs.Clause.Census
import SqlScribe.Proofs.Pattern.Search

/-!
# Words in rewritten texts

When a part of a text is replaced, a word may come to stand where none stood: the replacement may
hold it, it may make one with its neighbours, and it may open or close a quotation around others.
`Text.AddsNone` says that nothing of this happens. It is preserved when parts are put together, so
a rule adds no word when none of its replacements does. Main statements:

* `AddsNone.refl`, `AddsNone.append`: what is left as it is, and part by part;
* `AddsNone.of_quiet`, `AddsNone.of_signs`: what other words and what signs may be written for;
* `AddsNone.swap`: two parts that change their places;
* `Pattern.addsNone_replaceAll`: a text and its matches;
* `spares_replaceAll`, `Counts.of_spares`, `Counts.census_render_limit`: clauses.
-/

namespace SqlScribe

open Outline

namespace Text

/-! ## Beginnings of identifiers -/

/-- What has been read of an identifier in a new text, where `run` has been read of it in the old
one: the same, or something that the word does not begin with. -/
def Follows (w run new : Text) : Prop := new = run ∨ ¬ new <+: w

variable {w : Text} {n : Nesting} {run new a b t u v : Text} {c d : Char}

theorem Follows.refl (w run : Text) : Follows w run run := Or.inl rfl

theorem not_prefix_append (h : ¬ a <+: w) (b : Text) : ¬ a ++ b <+: w := fun hb =>
  h ((List.prefix_append a b).trans hb)

theorem Follows.append (h : Follows w run new) (t : Text) : Follows w (run ++ t) (new ++ t) :=
  h.imp (congrArg (· ++ t)) fun h => not_prefix_append h t

theorem closes_of_diverging (h : ¬ run <+: w) (n : Nesting) : closes w n run = 0 := by
  refine if_neg fun hc => h ?_
  rw [Bool.and_eq_true, beq_iff_eq] at hc
  exact hc.2 ▸ List.prefix_rfl

theorem Follows.closes_le (h : Follows w run new) (n : Nesting) :
    closes w n new ≤ closes w n run := by
  rcases h with rfl | h
  · exact Nat.le_refl _
  · rw [closes_of_diverging h]
    exact Nat.zero_le _

/-! ## Replaced parts -/

/-- Written in place of `u`, where the text in front of it leaves `n`, the text `v` does not make
the word stand where it did not. -/
structure AddsNone (w : Text) (n : Nesting) (u v : Text) : Prop where
  nesting : nestingAfter n v = nestingAfter n u
  passed_le : ∀ run new, Follows w run new → passed w n new v ≤ passed w n run u
  follows : ∀ run new, Follows w run new → Follows w (runAfter run u) (runAfter new v)

theorem AddsNone.refl (w : Text) (n : Nesting) (u : Text) : AddsNone w n u u := by
  refine ⟨rfl, fun run new h => ?_, fun run new h => ?_⟩
  · induction u generalizing n run new with
    | nil => exact Nat.le_refl _
    | cons c u ih =>
      rw [passed, passed]
      split
      · exact ih _ _ _ (h.append _)
      · exact Nat.add_le_add (h.closes_le n) (Nat.le_refl _)
  · induction u generalizing run new with
    | nil => exact h
    | cons c u ih =>
      rw [runAfter, runAfter]
      split
      · exact ih _ _ (h.append _)
      · exact .refl w _

/-- Parts that are replaced one behind the other. -/
theorem AddsNone.append (h : AddsNone w n u v) (h' : AddsNone w (nestingAfter n u) a b) :
    AddsNone w n (u ++ a) (v ++ b) := by
  refine ⟨?_, fun run new hrun => ?_, fun run new hrun => ?_⟩
  · rw [nestingAfter_append, nestingAfter_append, h.nesting, h'.nesting]
  · rw [passed_append, passed_append, h.nesting]
    exact Nat.add_le_add (h.passed_le run new hrun) (h'.passed_le _ _ (h.follows run new hrun))
  · rw [runAfter_append, runAfter_append]
    exact h'.follows _ _ (h.follows run new hrun)

theorem AddsNone.censusFrom_le (h : AddsNone w n u v) :
    censusFrom w n [] v ≤ censusFrom w n [] u := by
  rw [censusFrom, censusFrom, h.nesting]
  exact Nat.add_le_add (h.passed_le _ _ (.refl w [])) ((h.follows _ _ (.refl w [])).closes_le _)

/-! ## Other words -/

/-- Behind any beginning of an identifier the text passes no word, and it ends in an identifier
that is not the beginning of the word. -/
structure Quiet (w v : Text) : Prop where
  idle : ∀ c ∈ v, isIdle c = true
  passed_eq : ∀ n run, passed w n run v = 0
  lost : ∀ run, ¬ runAfter run v <+: w

theorem runAfter_of_chars (hv : ∀ c ∈ v, isIdentifierChar c = true) (run : Text) :
    runAfter run v = run ++ v.map Char.toUpper := by
  induction v generalizing run with
  | nil => exact (List.append_nil run).symm
  | cons c v ih =>
    obtain ⟨hc, hv⟩ := List.forall_mem_cons.1 hv
    rw [runAfter, if_pos hc, ih hv, List.map_cons, ← List.append_cons]

theorem passed_of_chars (hv : ∀ c ∈ v, isIdentifierChar c = true) (n : Nesting) (run : Text) :
    passed w n run v = 0 := by
  induction v generalizing n run with
  | nil => rfl
  | cons c v ih =>
    obtain ⟨hc, hv⟩ := List.forall_mem_cons.1 hv
    rw [passed, if_pos hc, ih hv]

/-- A word with a character that the other word has not. -/
theorem quiet_of_chars (hv : ∀ c ∈ v, isIdentifierChar c = true)
    (hother : ∃ c ∈ v, c.toUpper ∉ w) : Quiet w v := by
  refine ⟨fun c hc => isIdle_of_isIdentifierChar (hv c hc), passed_of_chars hv, fun run hrun => ?_⟩
  obtain ⟨c, hc, hw⟩ := hother
  rw [runAfter_of_chars hv] at hrun
  exact hw (hrun.subset (List.mem_append_right _ (List.mem_map_of_mem hc)))

/-- Words between idle signs. -/
theorem Quiet.append_cons (ha : Quiet w a) (hc : isIdentifierChar c = false)
    (hidle : isIdle c = true) (hb : Quiet w b) : Quiet w (a ++ c :: b) := by
  refine ⟨fun d hd => ?_, fun n run => ?_, fun run => ?_⟩
  · rcases List.mem_append.1 hd with hd | hd
    · exact ha.idle d hd
    · exact (List.mem_cons.1 hd).elim (fun h => h ▸ hidle) (hb.idle d)
  · rw [passed_append, passed, if_neg (by simp [hc]), ha.passed_eq, hb.passed_eq,
      closes_of_diverging (ha.lost run)]
  · rw [runAfter_append, runAfter, if_neg (by simp [hc])]
    exact hb.lost []

/-- Words behind and in front of idle signs are read over where each has a character that the word
has not. -/
theorem quiet_of_cut (hidle : ∀ c ∈ v, isIdle c = true)
    (hother : ∀ r ∈ cut (fun c => !isIdentifierChar c) v, ∃ c ∈ r, c.toUpper ∉ w) : Quiet w v := by
  -- the induction reads on behind the beginning `a` of a word
  suffices hbehind : ∀ a : Text, (∀ c ∈ a, isIdentifierChar c = true) →
      (∀ r ∈ cut (fun c => !isIdentifierChar c) (a ++ v), ∃ c ∈ r, c.toUpper ∉ w) →
      Quiet w (a ++ v) from hbehind [] (by simp) hother
  clear hother
  induction v with
  | nil =>
    intro a ha hother
    rw [List.append_nil, cut_eq_singleton fun c hc => by simp [ha c hc],
      List.forall_mem_singleton] at hother
    rw [List.append_nil]
    exact quiet_of_chars ha hother
  | cons c v ih =>
    obtain ⟨hc, hidle⟩ := List.forall_mem_cons.1 hidle
    intro a ha hother
    cases hchar : isIdentifierChar c with
    | true =>
      rw [List.append_cons] at hother ⊢
      refine ih hidle (a ++ [c]) (fun d hd => ?_) hother
      rcases List.mem_append.1 hd with hd | hd
      · exact ha d hd
      · exact List.mem_singleton.1 hd ▸ hchar
    | false =>
      rw [cut_append_cons (by simp [hchar]), cut_eq_singleton fun c hc => by simp [ha c hc],
        List.singleton_append, List.forall_mem_cons] at hother
      exact (quiet_of_chars ha hother.1).append_cons hchar hc (ih hidle [] (by simp) hother.2)

/-- Other words may stand for what leaves the nesting as it was. -/
theorem AddsNone.of_quiet (hn : IsClosing n.closing) (hu : nestingAfter n u = n) (hv : Quiet w v) :
    AddsNone w n u v := by
  refine ⟨?_, fun run new _ => ?_, fun run new _ => Or.inr (hv.lost new)⟩
  · rw [hu, nestingAfter_of_idle hn hv.idle]
  · rw [hv.passed_eq]
    exact Nat.zero_le _

/-! ## Signs -/

/-- Whether no identifier that ends within the text is the word. -/
def passesNone (w run : Text) : Text → Bool
  | [] => true
  | c :: t =>
      if isIdentifierChar c then passesNone w (run ++ [c.toUpper]) t
      else run != w && passesNone w [] t

theorem passed_eq_zero (h : passesNone w run t = true) (n : Nesting) : passed w n run t = 0 := by
  induction t generalizing n run with
  | nil => rfl
  | cons c t ih =>
    rw [passesNone] at h
    rw [passed]
    split at h
    · next hc => rw [if_pos hc, ih h]
    · next hc =>
      rw [Bool.and_eq_true, bne_iff_ne] at h
      rw [if_neg hc, ih h.2, closes, if_neg (by simp [h.1])]

/-- What begins with a sign and ends in one may stand for such a text. -/
theorem AddsNone.of_signs (hc : isIdentifierChar c = false) (hd : isIdentifierChar d = false)
    (hnesting : nestingAfter n (d :: v) = nestingAfter n (c :: u)) (hu : runAfter [] u = [])
    (hv : runAfter [] v = [] ∧ passesNone w [] v = true) :
    AddsNone w n (c :: u) (d :: v) := by
  refine ⟨hnesting, fun run new h => ?_, fun run new _ => ?_⟩
  · rw [passed, passed, if_neg (by simp [hd]), if_neg (by simp [hc]), passed_eq_zero hv.2,
      Nat.add_zero]
    exact (h.closes_le n).trans (Nat.le_add_right _ _)
  · rw [runAfter, runAfter, if_neg (by simp [hc]), if_neg (by simp [hd]), hu, hv.1]
    exact .refl w []

theorem runAfter_of_signs (h : ∀ c ∈ t, isIdentifierChar c = false) : runAfter [] t = [] :=
  runAfter_of_last fun c hc => h c (List.mem_of_getLast? hc)

/-- Blanks behind a sign may go. -/
theorem AddsNone.cons_blanks (hn : IsClosing n.closing) (hc : isIdentifierChar c = false)
    (hu : ∀ x ∈ u, isBlank x = true) : AddsNone w n (c :: u) [c] := by
  refine .of_signs hc hc ?_ (runAfter_of_signs fun x hx => isIdentifierChar_of_isBlank (hu x hx))
    ⟨rfl, rfl⟩
  have hread : IsClosing (n.read c).closing := by
    rw [closing_read]
    exact hn.after c
  exact (nestingAfter_of_blank hread hu).symm

/-- Blanks in front of a sign may go. -/
theorem AddsNone.blanks_append (hn : IsClosing n.closing) (hc : isIdentifierChar c = false)
    (hu : ∀ x ∈ u, isBlank x = true) : AddsNone w n (u ++ [c]) [c] := by
  cases u with
  | nil => exact .refl w n [c]
  | cons x u =>
    obtain ⟨hx, hu⟩ := List.forall_mem_cons.1 hu
    have hall : ∀ y ∈ x :: u, isBlank y = true := List.forall_mem_cons.2 ⟨hx, hu⟩
    refine .of_signs (u := u ++ [c]) (isIdentifierChar_of_isBlank hx) hc ?_ ?_ ⟨rfl, rfl⟩
    · rw [← List.cons_append, nestingAfter_append, nestingAfter_of_blank hn hall]
    · refine runAfter_of_last fun d hd => ?_
      rw [List.getLast?_concat] at hd
      exact Option.some.inj hd ▸ hc

/-- A comma with blanks around it may become idle signs that hold other words. -/
theorem AddsNone.comma (hn : IsClosing n.closing) (ha : ∀ x ∈ a, isBlank x = true)
    (hb : ∀ x ∈ b, isBlank x = true) (hd : isIdentifierChar d = false)
    (hidle : ∀ c ∈ d :: v, isIdle c = true) (hv : runAfter [] v = [] ∧ passesNone w [] v = true) :
    AddsNone w n (a ++ ',' :: b) (d :: v) := by
  have hsigns : ∀ c ∈ a ++ ',' :: b, isIdentifierChar c = false ∧ isIdle c = true := by
    intro c hc
    rcases List.mem_append.1 hc with hc | hc
    · exact ⟨isIdentifierChar_of_isBlank (ha c hc), isIdle_of_isBlank (ha c hc)⟩
    · rcases List.mem_cons.1 hc with rfl | hc
      · exact ⟨by decide, by decide⟩
      · exact ⟨isIdentifierChar_of_isBlank (hb c hc), isIdle_of_isBlank (hb c hc)⟩
  obtain ⟨c, u, hu⟩ := List.exists_cons_of_ne_nil (l := a ++ ',' :: b) (by simp)
  rw [hu] at hsigns ⊢
  refine .of_signs (hsigns c List.mem_cons_self).1 hd ?_
    (runAfter_of_signs fun x hx => (hsigns x (List.mem_cons_of_mem c hx)).1) hv
  rw [nestingAfter_of_idle hn hidle, nestingAfter_of_idle hn fun x hx => (hsigns x hx).2]

/-! ## Quotations and parentheses -/

theorem isClosing_closingAt {q : Option Char} (hq : IsClosing q) (t : Text) :
    IsClosing (closingAt q t) := by
  induction t generalizing q with
  | nil => exact hq
  | cons c t ih => exact ih (hq.after c)

theorem closing_read_of_not_mem (hn : IsClosing n.closing) (hc : c ∉ quoteMarks) :
    (n.read c).closing = n.closing := by
  rw [closing_read, closingAfter_of_not_mem hn hc]

/-- What stands in parentheses leaves the nesting as it was if it leaves that behind the first
parenthesis. -/
theorem nestingAfter_parens (hn : IsClosing n.closing)
    (h : nestingAfter (n.read '(') t = n.read '(') : nestingAfter n ('(' :: (t ++ [')'])) = n := by
  have hread : nestingAfter n ('(' :: (t ++ [')'])) = (nestingAfter (n.read '(') t).read ')' :=
    nestingAfter_append (n.read '(') t [')']
  rw [hread, h]
  obtain ⟨d, q⟩ := n
  cases q with
  | none => rfl
  | some e =>
    have he := hn e rfl
    have hopen : '(' ≠ e := by
      rintro rfl
      exact absurd he (by decide)
    have hclose : ')' ≠ e := by
      rintro rfl
      exact absurd he (by decide)
    rw [Nesting.read_inside hopen, Nesting.read_inside hclose]

/-- A text in single quotes leaves the nesting as it was, also where they close a quotation and
open it again. -/
theorem nestingAfter_quote (hn : IsClosing n.closing) (ht : ∀ c ∈ t, isIdle c = true) :
    nestingAfter n (quote t) = n := by
  have hquote : nestingAfter n (quote t) = (nestingAfter (n.read '\'') t).read '\'' :=
    nestingAfter_append (n.read '\'') t ['\'']
  have hread : IsClosing (n.read '\'').closing := by
    rw [closing_read]
    exact hn.after _
  rw [hquote, nestingAfter_of_idle hread ht]
  obtain ⟨d, q⟩ := n
  cases q with
  | none => rfl
  | some e =>
    by_cases he : '\'' = e
    · subst he
      rfl
    · rw [Nesting.read_inside he, Nesting.read_inside he]

/-- A text without parentheses that closes the quotations it opens leaves the nesting as it was. -/
theorem nestingAfter_of_closing (hparens : ∀ c ∈ t, c ≠ '(' ∧ c ≠ ')')
    (h : closingAt n.closing t = n.closing) : nestingAfter n t = n := by
  rw [nestingAfter_of_noParen hparens, h]

/-! ## Parts that change their places -/

/-- What stands between two signs, read from the first one on. -/
theorem AddsNone.enclosed (hc : isIdentifierChar c = false) (hd : isIdentifierChar d = false)
    (hnesting : nestingAfter (n.read c) v = nestingAfter (n.read c) u)
    (hle : censusFrom w (n.read c) [] v ≤ censusFrom w (n.read c) [] u) :
    AddsNone w n (c :: (u ++ [d])) (c :: (v ++ [d])) := by
  have hread : ∀ t, nestingAfter n (c :: (t ++ [d]))
      = (nestingAfter (n.read c) t).read d := fun t =>
    nestingAfter_append (n.read c) t [d]
  have hpassed : ∀ run t, passed w n run (c :: (t ++ [d]))
      = closes w n run + censusFrom w (n.read c) [] t := fun run t => by
    rw [passed, if_neg (by simp [hc]), passed_append, passed, if_neg (by simp [hd]), passed,
      Nat.add_zero]
    rfl
  have hrun : ∀ run t, runAfter run (c :: (t ++ [d])) = [] := fun run t => by
    rw [runAfter, if_neg (by simp [hc]), runAfter_append, runAfter, if_neg (by simp [hd])]
    rfl
  refine ⟨by rw [hread, hread, hnesting], fun run new h => ?_, fun run new _ => ?_⟩
  · rw [hpassed, hpassed]
    exact Nat.add_le_add (h.closes_le n) hle
  · rw [hrun, hrun]
    exact .refl w []

/-- Two parts between signs that both leave the nesting as it was may change their places. -/
theorem AddsNone.swap (hw : w ≠ []) (hn : IsClosing n.closing) (hc : isIdentifierChar c = false)
    (hd : isIdentifierChar d = false) (ha : nestingAfter (n.read c) a = n.read c)
    (hb : nestingAfter (n.read c) b = n.read c) {s p r q : Text}
    (hblank : ∀ x ∈ s ++ p ++ r ++ q, isBlank x = true) :
    AddsNone w n (c :: ((s ++ (a ++ p)) ++ ',' :: (r ++ (b ++ q)) ++ [d]))
      (c :: ((b ++ ',' :: ([' '] ++ (a ++ []))) ++ [d])) := by
  simp only [List.mem_append, or_imp, forall_and] at hblank
  obtain ⟨⟨⟨hs, hs'⟩, hr⟩, hr'⟩ := hblank
  have hread : IsClosing (n.read c).closing := by
    rw [closing_read]
    exact hn.after c
  have hcomma : (n.read c).read ',' = n.read c := Nesting.read_of_isIdle hread (by decide)
  -- blanks around a part change neither what is counted in it nor the nesting
  have hpart : ∀ {x y z : Text}, (∀ c ∈ x, isBlank c = true) → (∀ c ∈ z, isBlank c = true) →
      nestingAfter (n.read c) y = n.read c →
      censusFrom w (n.read c) [] (x ++ (y ++ z)) = censusFrom w (n.read c) [] y ∧
        nestingAfter (n.read c) (x ++ (y ++ z)) = n.read c := by
    intro x y z hx hz hy
    constructor
    · rw [censusFrom_blanks_append hw hread hx,
        censusFrom_append_signs hw fun c hc => isIdentifierChar_of_isBlank (hz c hc)]
    · rw [nestingAfter_append, nestingAfter_of_blank hread hx, nestingAfter_append, hy,
        nestingAfter_of_blank hread hz]
  -- so two parts with a comma between them count as the parts do, in either order
  have hpair : ∀ {x y : Text}, nestingAfter (n.read c) x = n.read c →
      nestingAfter (n.read c) y = n.read c →
      censusFrom w (n.read c) [] (x ++ ',' :: y)
        = censusFrom w (n.read c) [] x + censusFrom w (n.read c) [] y ∧
        nestingAfter (n.read c) (x ++ ',' :: y) = n.read c := by
    intro x y hx hy
    constructor
    · rw [censusFrom_append_sign (by decide), hx, hcomma]
    · rw [nestingAfter_append, hx]
      show nestingAfter ((n.read c).read ',') y = _
      rw [hcomma, hy]
  obtain ⟨hfirst, hfirst'⟩ := hpart hs hs' ha
  obtain ⟨hsecond, hsecond'⟩ := hpart hr hr' hb
  obtain ⟨hlast, hlast'⟩ := hpart (x := [' ']) (z := []) (by decide) (by simp) ha
  obtain ⟨hold, hold'⟩ := hpair hfirst' hsecond'
  obtain ⟨hnew, hnew'⟩ := hpair hb hlast'
  refine .enclosed hc hd (by rw [hold', hnew']) (le_of_eq ?_)
  rw [hold, hnew, hfirst, hsecond, hlast, Nat.add_comm]

/-! ## Texts and their matches -/

/-- The matches among pieces of a text, each with the nesting where it begins. -/
def placed (n : Nesting) : List Piece → List (Nesting × Match)
  | [] => []
  | .plain c :: ps => placed (n.read c) ps
  | .hit m :: ps => (n, m) :: placed (nestingAfter n m.text) ps

theorem addsNone_pieces {f : Match → Text} {ps : List Piece}
    (h : ∀ x ∈ placed n ps, IsClosing x.1.closing → AddsNone w x.1 x.2.text (f x.2))
    (hn : IsClosing n.closing) : AddsNone w n (ps.flatMap Piece.text)
      (ps.flatMap fun
        | .plain c => [c]
        | .hit m => f m) := by
  induction ps generalizing n with
  | nil => exact .refl w n []
  | cons x ps ih =>
    rw [List.flatMap_cons, List.flatMap_cons]
    cases x with
    | plain c =>
      refine (AddsNone.refl w n [c]).append (ih h ?_)
      exact isClosing_nestingAfter hn [c]
    | hit m =>
      rw [placed, List.forall_mem_cons] at h
      exact (h.1 hn).append (ih h.2 (isClosing_nestingAfter hn m.text))

end Text

namespace Pattern

/-- The matches in a text, each with the nesting where it begins. -/
def placedIn (p : Pattern) (t : Text) : List (Nesting × Match) := Text.placed .top (p.pieces t)

/-- **Matches that add no word.** Where no replacement adds the word to what it replaces, the
rewritten text has it no more often. -/
theorem addsNone_replaceAll {w : Text} {p : Pattern} {f : Match → Text} {t : Text}
    (h : ∀ x ∈ p.placedIn t, Text.IsClosing x.1.closing → Text.AddsNone w x.1 x.2.text (f x.2)) :
    Text.AddsNone w .top t (p.replaceAll f t) := by
  have hpieces := Text.addsNone_pieces h Text.isClosing_none
  rwa [text_pieces] at hpieces

theorem mem_pieces_of_mem_placed {n : Nesting} {ps : List Piece} {x : Nesting × Match}
    (h : x ∈ Text.placed n ps) : .hit x.2 ∈ ps := by
  induction ps generalizing n with
  | nil => exact absurd h List.not_mem_nil
  | cons y ps ih =>
    cases y with
    | plain c => exact List.mem_cons_of_mem _ (ih h)
    | hit m =>
      rw [Text.placed] at h
      rcases List.mem_cons.1 h with rfl | h
      · exact List.mem_cons_self
      · exact List.mem_cons_of_mem _ (ih h)

end Pattern

/-! ## Clauses -/

namespace Outline

open Text

variable {w : Text} {N : Nat} {c d : Clause} {cs ds : List Clause}

/-- A clause in the place of another one, in which the word stands no more often and which is read
over alike. -/
structure Spares (w : Text) (c d : Clause) : Prop where
  kind_eq : d.kind = c.kind
  census_le : Text.census w d.body ≤ Text.census w c.body
  nesting : nestingAfter .top d.body = nestingAfter .top c.body

theorem Spares.refl (w : Text) (c : Clause) : Spares w c c := ⟨rfl, Nat.le_refl _, rfl⟩

/-- A clause in which no replacement adds the word to what it replaces. -/
theorem spares_replaceAll {p : Pattern} {f : Match → Text}
    (h : ∀ x ∈ p.placedIn c.body, IsClosing x.1.closing → AddsNone w x.1 x.2.text (f x.2)) :
    Spares w c ⟨c.kind, p.replaceAll f c.body⟩ := by
  have hadds := Pattern.addsNone_replaceAll h
  exact ⟨rfl, hadds.censusFrom_le, hadds.nesting⟩

/-- The word stands at most `N` times in clauses of which all but the last are read over. -/
structure Counts (w : Text) (N : Nat) (cs : List Clause) : Prop where
  sum_le : (cs.map (clauseCensus w)).sum ≤ N
  closed : ∀ c ∈ cs.dropLast, nestingAfter .top c.body = .top

theorem Counts.of_spares (h : cs.Forall₂ (Spares w) ds) (hc : Counts w N cs) : Counts w N ds := by
  constructor
  · refine le_trans ?_ hc.sum_le
    clear hc
    induction h with
    | nil => exact Nat.le_refl _
    | cons hd _ ih =>
      rw [List.map_cons, List.sum_cons, List.map_cons, List.sum_cons, clauseCensus, clauseCensus,
        hd.kind_eq]
      exact Nat.add_le_add (Nat.add_le_add_left hd.census_le _) ih
  · have hclosed := hc.closed
    clear hc
    induction h with
    | nil => exact hclosed
    | cons hd hds ih =>
      cases hds with
      | nil => simp
      | cons hd' hds =>
        rw [List.dropLast_cons_of_ne_nil (List.cons_ne_nil _ _), List.forall_mem_cons] at hclosed ⊢
        exact ⟨hd.nesting.trans hclosed.1, ih hclosed.2⟩

/-- A change of the first clause of a kind. -/
theorem forall₂_editClauses {k : ClauseKind} {f : Text → Text} {b : Text}
    (hb : (cs.find? fun c => c.kind == k).map Clause.body = some b)
    (hcensus : Text.census w (f b) ≤ Text.census w b)
    (hnesting : nestingAfter .top (f b) = nestingAfter .top b) :
    cs.Forall₂ (Spares w) (editClauses k f cs) := by
  induction cs with
  | nil => exact .nil
  | cons c cs ih =>
    rw [editClauses]
    cases hk : c.kind == k with
    | true =>
      rw [List.find?_cons_of_pos (by exact hk), Option.map_some, Option.some.injEq] at hb
      rw [if_pos rfl]
      refine .cons ⟨(eq_of_beq hk).symm, hb ▸ hcensus, hb ▸ hnesting⟩ ?_
      exact List.forall₂_same.2 fun d _ => .refl w d
    | false =>
      rw [List.find?_cons_of_neg (by simp [hk])] at hb
      rw [if_neg Bool.false_ne_true]
      exact .cons (.refl w c) (ih hb)

/-- What is written has the word as often as the clauses. -/
theorem Counts.census_render (hw : w ≠ []) {o : Outline} (h : Counts w N o.clauses) :
    Text.census w o.render ≤ N :=
  le_of_eq_of_le (Outline.census_render hw h.closed) h.sum_le

/-- **A limit behind other clauses** is one more word `LIMIT` at most. It may be none, since the
clause in front of it may leave a quotation or a parenthesis open. -/
theorem Counts.census_render_limit {v : Text} (hw : w ≠ []) (hv : Quiet w v) {o : Outline}
    (ho : o.clauses = cs ++ [⟨.limit, v⟩]) (h : Counts w N cs) :
    Text.census w o.render ≤ N + 1 := by
  have hlimit : ∀ n : Nesting, censusFrom w n [] (writeClause ⟨.limit, v⟩) ≤ 1 := fun n => by
    have hdigits : ∀ n, censusFrom w n [] v = 0 := fun n => by
      rw [censusFrom, hv.passed_eq, closes_of_diverging (hv.lost [])]
    have hword : censusFrom w n [] ClauseKind.limit.word ≤ 1 := by
      rw [censusFrom, passed_of_chars (by decide), Nat.zero_add]
      exact closes_le_one _ _ _
    have hspace : censusFrom w n [] (ClauseKind.limit.word ++ ' ' :: v)
        = censusFrom w n [] ClauseKind.limit.word := by
      rw [censusFrom_append_sign (by decide), hdigits, Nat.add_zero]
    exact hspace ▸ hword
  have hfront := h.census_render hw (o := ⟨cs, false⟩)
  rw [render_eq, if_neg Bool.false_ne_true, List.append_nil, written, census_collapse hw] at hfront
  have hsemicolon : ∀ c ∈ (if o.terminated then [';'] else []), isIdentifierChar c = false := by
    split <;> decide
  rw [render_eq, Text.census, censusFrom_append_signs hw hsemicolon, ← Text.census, written,
    census_collapse hw, ho, List.map_append]
  by_cases hnil : cs = []
  · subst hnil
    exact (hlimit .top).trans (Nat.le_add_left 1 N)
  · rw [join_append _ (by simpa using hnil) (by simp), List.append_assoc, List.singleton_append,
      Text.census, censusFrom_append_sign (by decide)]
    exact Nat.add_le_add hfront (hlimit _)

end Outline

end SqlScribe
