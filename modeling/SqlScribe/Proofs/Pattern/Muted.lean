import SqlScribe.Proofs.Pattern.Hits
import SqlScribe.Proofs.Pattern.Trace

/-!
# Searching a muted text

What a search finds in a text, it finds in the text with its literals blanked out or in one
of the literals alone. For patterns that pass both texts in step the matches outside of
literals are the same but for the blanks. Main statements:

* `matchAt?_eq_none_of_mute`, `matchAt?_eq_none_of_literal`: where a clear pattern finds
  nothing in the muted text and in the literals, it finds nothing;
* `exists_hit_mute`: a match of a steady pattern is one of the muted text as well.
-/

namespace SqlScribe

/-! ## Veiled texts -/

/-- The character is the same, or is a blank for one that neither rules nor quotations
look at. -/
def Veils (c d : Char) : Prop := d = c ∨ (d = ' ' ∧ c ∉ ruleMarks ∧ c ≠ '\'')

/-- The texts are the same but for blanks. -/
def Veiled (t u : Text) : Prop := List.Forall₂ Veils t u

theorem veiled_muteFrom {q : Option Char} {t : Text} (h : Text.PlainFrom q t) :
    Veiled t (Text.muteFrom q t) := by
  induction t generalizing q with
  | nil => exact List.Forall₂.nil
  | cons c t ih =>
    refine List.Forall₂.cons ?_ (ih h.tail)
    split
    · next hin =>
      obtain ⟨rfl, hc⟩ := hin
      exact Or.inr ⟨rfl, h.head hc, hc⟩
    · exact Or.inl rfl

/-- A capture of the muted text is the one of the text but for blanks. -/
structure Capture.Alike (g h : Capture) : Prop where
  number_eq : h.number = g.number
  start : Veiled g.start h.start
  stop : Veiled g.stop h.stop

theorem Veiled.take {t u : Text} (h : Veiled t u) (n : Nat) : Veiled (t.take n) (u.take n) :=
  List.forall₂_take n h

theorem Capture.Alike.text {g h : Capture} (hgh : g.Alike h) : Veiled g.text h.text := by
  rw [Capture.text, Capture.text, ← hgh.start.length_eq, ← hgh.stop.length_eq]
  exact hgh.start.take _

/-- The texts of matches have the same length, and their groups are the same but for
blanks. -/
structure Match.Alike (m m' : Match) : Prop where
  length_eq : m'.text.length = m.text.length
  groups : List.Forall₂ (fun g h => h.1 = g.1 ∧ Veiled g.2 h.2) m.groups m'.groups

/-- A mark or a single quote stands at the same places of both texts. -/
theorem Veils.beq_eq {c d x : Char} (h : Veils c d) (hx : x ∈ '\'' :: ruleMarks) :
    (d == x) = (c == x) := by
  rcases h with rfl | ⟨rfl, hc, hquote⟩
  · rfl
  · have hspace : ' ' ≠ x := by
      rintro rfl
      exact absurd hx (by decide)
    have hne : c ≠ x := by
      rintro rfl
      exact (List.mem_cons.1 hx).elim hquote hc
    rw [beq_eq_false_iff_ne.2 hspace, beq_eq_false_iff_ne.2 hne]

/-- A group that one of the matches has, the other has as well. -/
theorem Match.Alike.group? {m m' : Match} (h : m.Alike m') (n : Nat) :
    Option.Rel Veiled (m.group? n) (m'.group? n) := by
  rw [Match.group?, Match.group?]
  have hgroups := h.groups
  revert hgroups
  generalize m.groups = gs
  generalize m'.groups = hs
  intro hgroups
  induction hgroups with
  | nil => exact Option.Rel.none
  | @cons g h gs hs hgh _ ih =>
    obtain ⟨i, u⟩ := g
    obtain ⟨j, v⟩ := h
    obtain ⟨rfl, hveiled⟩ : j = i ∧ Veiled u v := hgh
    rw [List.lookup_cons, List.lookup_cons]
    split
    · exact Option.Rel.some hveiled
    · exact ih

theorem Match.Alike.group {m m' : Match} (h : m.Alike m') (n : Nat) :
    Veiled (m.group n) (m'.group n) := by
  have hrel := h.group? n
  rw [Match.group, Match.group]
  revert hrel
  generalize m.group? n = g
  generalize m'.group? n = g'
  intro hrel
  cases hrel with
  | none => exact List.Forall₂.nil
  | some hveiled => exact hveiled

namespace Pattern

/-! ## Clear patterns -/

/-- Wherever a way begins, there is one through the muted text or through the literal alone. -/
def isClear (p : Pattern) : Bool :=
  [Stage.outside, .alone].all fun s =>
    match trace p s with
    | some ss => !ss.contains .lost
    | none => false

theorem ways_eq_nil_of_isClear {p : Pattern} (hp : p.isClear = true) {s : Stage}
    (hs : s ∈ [Stage.outside, .alone]) {c e : Cursor} (h : s.Holds c.place [e.place])
    (he : ways p e = []) : ways p c = [] := by
  have htrace := List.all_eq_true.1 hp s hs
  split at htrace
  · next ss hss =>
    refine List.eq_nil_iff_forall_not_mem.2 fun d hd => ?_
    obtain ⟨s', hs', hholds⟩ := trace_sound hss c [e] h d hd
    have hlost : s' ≠ .lost := by
      rintro rfl
      simp [hs'] at htrace
    exact hholds.ne_nil hlost (by simp [nextPlaces, he])
  · exact absurd htrace (by simp)

section Clear

variable {p : Pattern} (hp : p.isClear = true) (hsome : p.takesSome = true) {v w : Text}

include hp hsome

/-- Outside of literals a clear pattern matches no more than in the muted text. -/
theorem matchAt?_eq_none_of_muteFrom {q b : Option Char} (hq : q ≠ some '\'')
    (hplain : Text.PlainFrom q w) (h : p.matchAt? b (Text.muteFrom q w) = none) :
    p.matchAt? b w = none := by
  rw [matchAt?_eq_none_iff hsome] at h ⊢
  exact ways_eq_nil_of_isClear hp (s := .outside) (by simp)
    ⟨q, hq, hplain, List.mem_singleton_self _⟩ h

theorem matchAt?_eq_none_of_mute (hplain : Text.PlainFrom none (v ++ w))
    (hout : Text.closingAt none v ≠ some '\'')
    (hmute : ∀ m, .hit m ∉ pieces p (v ++ w).mute) : p.matchAt? v.getLast? w = none := by
  have hnone := matchAt?_eq_none_of_no_hit hmute (Text.muteFrom_append none v w)
  rw [Text.getLast?_muteFrom hout] at hnone
  exact matchAt?_eq_none_of_muteFrom hp hsome hout hplain.append_right hnone

/-- Inside a literal a clear pattern matches no more than in the literal alone. -/
theorem matchAt?_eq_none_of_literal (hclosed : Text.Closed (v ++ w))
    (hplain : Text.PlainFrom none (v ++ w)) (hin : Text.closingAt none v = some '\'')
    (hliterals : ∀ u ∈ Text.literals (v ++ w), ∀ m, .hit m ∉ pieces p (Text.quote u)) :
    p.matchAt? v.getLast? w = none := by
  obtain ⟨a, x, y, s, hv, hw, -, hy, hmem⟩ := Text.exists_literal hclosed hin
  have hquote : Text.quote (x ++ y) = ('\'' :: x) ++ (y ++ ['\'']) := by simp [Text.quote]
  have hnone := matchAt?_eq_none_of_no_hit (hliterals _ hmem) hquote
  have hlast : v.getLast? = ('\'' :: x).getLast? := by
    rw [hv, List.getLast?_append, List.getLast?_cons]
    rfl
  rw [← hlast, matchAt?_eq_none_iff hsome] at hnone
  rw [matchAt?_eq_none_iff hsome]
  refine ways_eq_nil_of_isClear hp (s := .alone) (by simp) ⟨y, s, hw, fun z hz => ?_, hy, ?_⟩ hnone
  · exact hplain _ hmem z (List.mem_append_right x hz)
  · exact List.mem_singleton_self _

end Clear

/-! ## Ways in step -/

/-- The place `d` of the muted text is the place `c`, outside of literals, of the text. -/
structure InStep (c d : Cursor) : Prop where
  rest : ∃ q, q ≠ some '\'' ∧ Text.PlainFrom q c.rest ∧ Text.closingAt q c.rest ≠ some '\'' ∧
    d.rest = Text.muteFrom q c.rest
  before : d.before = c.before
  captures : List.Forall₂ Capture.Alike c.captures d.captures

/-- The patterns that pass the text and the muted text in step. -/
def isSteady : Pattern → Bool
  | empty | anchor _ => true
  | one k => !k.has '\''
  | run k => k.isBlind || !k.has '\''
  | seq p q | alt p q => p.isSteady && q.isSteady
  | group _ p => p.isSteady
  | star _ | lazyStar _ | commit _ => false

/-- No text that the pattern spells begins with a character of a muted literal. -/
def skipsVeils (p : Pattern) : Bool := p.clashes [' '] && p.clashes ['\'']

theorem InStep.one {k : CharClass} (hk : k.has '\'' = false) {c d : Cursor} (h : InStep c d) :
    List.Forall₂ InStep (ways (one k) c) (ways (one k) d) := by
  obtain ⟨⟨q, hq, hplain, hclosed, hrest⟩, hbefore, hcaptures⟩ := h
  rw [ways, ways, Cursor.one?, Cursor.one?, hrest]
  cases hc : c.rest with
  | nil => exact List.Forall₂.nil
  | cons x t =>
    rw [hc] at hplain hclosed
    rw [Text.muteFrom_cons hq]
    dsimp only
    by_cases hx : k.has x = true
    · rw [if_pos hx, if_pos hx]
      have hnext : closingAfter q x ≠ some '\'' := by
        intro hin
        rcases closingAfter_eq_quote_iff.1 hin with ⟨hin, -⟩ | ⟨-, rfl⟩
        · exact hq hin
        · simp [hx] at hk
      exact List.Forall₂.cons ⟨⟨_, hnext, hplain.tail, hclosed, rfl⟩, rfl, hcaptures⟩
        List.Forall₂.nil
    · rw [if_neg hx, if_neg hx]
      exact List.Forall₂.nil

theorem InStep.run {k : CharClass} (hk : (k.isBlind || !k.has '\'') = true) {c d : Cursor}
    (h : InStep c d) : InStep (c.run k) (d.run k) := by
  obtain ⟨⟨q, hq, hplain, hclosed, hrest⟩, hbefore, hcaptures⟩ := h
  obtain ⟨u, r, hc, hall, hstop, hcrun⟩ :=
    ((takesMany_run k).mem_ways c _).1 (List.mem_singleton_self _)
  replace hstop := hstop rfl
  rw [hc] at hplain hclosed hrest
  rw [Text.closingAt_append] at hclosed
  rw [Text.muteFrom_append] at hrest
  have hright := hplain.append_right
  -- the run stops outside of literals, and the muted one at the same place
  have hstep : Text.closingAt q u ≠ some '\'' ∧ (∀ x ∈ Text.muteFrom q u, k.has x = true) ∧
      ∀ x, (Text.muteFrom (Text.closingAt q u) r).head? = some x → k.has x = false := by
    by_cases hblind : k.isBlind = true
    · refine ⟨fun hin => ?_, has_muteFrom hblind hall, stop_muteFrom hblind hright hstop⟩
      rw [hin] at hclosed hright
      cases r with
      | nil => exact hclosed rfl
      | cons x r =>
        have hx := hstop x rfl
        have hquote : x ≠ '\'' := by
          rintro rfl
          simp [CharClass.has_of_isBlind hblind (by decide : '\'' ∉ ruleMarks)] at hx
        simp [CharClass.has_of_isBlind hblind (hright.head hquote)] at hx
    · have hquote : k.has '\'' = false := by simpa [hblind] using hk
      obtain ⟨hclosing, hmute⟩ := Text.closingAt_ne_quote hq
        (fun hu => by simp [hall _ hu] at hquote : '\'' ∉ u)
      refine ⟨hclosing, by rwa [hmute], fun x hx => hstop x ?_⟩
      rwa [Text.head?_muteFrom hclosing] at hx
  obtain ⟨hout, hmuted, hstopped⟩ := hstep
  have hdrun : along d (Text.muteFrom q u) (Text.muteFrom (Text.closingAt q u) r) = d.run k :=
    List.mem_singleton.1 (((takesMany_run k).mem_ways d _).2
      ⟨_, _, hrest, hmuted, fun _ => hstopped, rfl⟩)
  rw [hcrun, ← hdrun]
  refine ⟨⟨_, hout, hright, hclosed, rfl⟩, ?_, hcaptures⟩
  show (Text.muteFrom q u).getLast?.or d.before = u.getLast?.or c.before
  rw [Text.getLast?_muteFrom hout, hbefore]

theorem InStep.veiled {c d : Cursor} (h : InStep c d) : Veiled c.rest d.rest := by
  obtain ⟨⟨q, -, hplain, -, hrest⟩, -, -⟩ := h
  exact hrest ▸ veiled_muteFrom hplain

theorem InStep.anchor (a : Anchor) {c d : Cursor} (h : InStep c d) :
    List.Forall₂ InStep (ways (anchor a) c) (ways (anchor a) d) := by
  obtain ⟨q, hq, -, -, hrest⟩ := h.rest
  have hholds : a.holds d.before d.rest = a.holds c.before c.rest := by
    rw [h.before, hrest]
    exact a.holds_congr _ (Text.head?_muteFrom hq _)
  rw [ways, ways, hholds]
  split
  · exact List.Forall₂.cons h List.Forall₂.nil
  · exact List.Forall₂.nil

theorem InStep.capture {c d e f : Cursor} (h : InStep c d) (he : InStep e f) (n : Nat) :
    InStep (c.capture n e) (d.capture n f) :=
  ⟨he.rest, he.before, List.Forall₂.cons ⟨rfl, h.veiled, he.veiled⟩ he.captures⟩

/-- Steady patterns take the same ways through both texts. -/
theorem InStep.ways {p : Pattern} (hp : p.isSteady = true) {c d : Cursor} (h : InStep c d) :
    List.Forall₂ InStep (ways p c) (ways p d) := by
  induction p generalizing c d with
  | empty => exact List.Forall₂.cons h List.Forall₂.nil
  | one k => exact h.one (by simpa [isSteady] using hp)
  | run k => exact List.Forall₂.cons (h.run hp) List.Forall₂.nil
  | anchor a => exact h.anchor a
  | seq p q ihp ihq =>
    rw [isSteady, Bool.and_eq_true] at hp
    exact List.rel_flatMap (ihp hp.1 h) fun _ _ he => ihq hp.2 he
  | alt p q ihp ihq =>
    rw [isSteady, Bool.and_eq_true] at hp
    exact List.rel_append (ihp hp.1 h) (ihq hp.2 h)
  | group n p ih =>
    exact List.rel_map (R := InStep) (P := InStep) (fun _ _ he => h.capture he n) (ih hp h)
  | star p => exact absurd hp Bool.false_ne_true
  | lazyStar p => exact absurd hp Bool.false_ne_true
  | commit p => exact absurd hp Bool.false_ne_true

/-- The matches of ways that are in step are alike. -/
theorem InStep.matchOf {b b' : Option Char} {t u : Text} {c d : Cursor} (ht : Veiled t u)
    (h : InStep c d) : (matchOf b t c).Alike (matchOf b' u d) := by
  refine ⟨?_, ?_⟩
  · simp only [Pattern.matchOf, List.length_take]
    rw [← ht.length_eq, ← h.veiled.length_eq]
  · exact List.rel_map (fun _ _ hgh => ⟨hgh.number_eq, hgh.text⟩) h.captures

/-! ## Searches in step -/

/-- Every match among the pieces has one alike among the others. -/
def Covered (ps ps' : List Piece) : Prop :=
  ∀ m, .hit m ∈ ps → ∃ m', .hit m' ∈ ps' ∧ m.Alike m'

theorem Covered.plain {ps ps' : List Piece} (h : Covered ps ps') (c c' : Char) :
    Covered (.plain c :: ps) (.plain c' :: ps') := by
  intro m hm
  obtain ⟨m', hm', halike⟩ := h m (List.mem_of_ne_of_mem (by simp) hm)
  exact ⟨m', List.mem_cons_of_mem _ hm', halike⟩

theorem Covered.hit {ps ps' : List Piece} (h : Covered ps ps') {m₁ m₂ : Match}
    (h₁₂ : m₁.Alike m₂) : Covered (.hit m₁ :: ps) (.hit m₂ :: ps') := by
  intro m hm
  rcases List.mem_cons.1 hm with hm | hm
  · exact ⟨m₂, List.mem_cons_self, Piece.hit.inj hm ▸ h₁₂⟩
  · obtain ⟨m', hm', halike⟩ := h m hm
    exact ⟨m', List.mem_cons_of_mem _ hm', halike⟩

/-- One step of two searches that go on alike. -/
theorem covered_piecesFrom {p : Pattern} {b b' : Option Char} {c c' : Char} {s s' : Text}
    (h : Option.Rel Match.Alike (p.matchAt? b (c :: s)) (p.matchAt? b' (c' :: s')))
    (hnext : ∀ skip, Covered (piecesFrom p (some c) skip s) (piecesFrom p (some c') skip s')) :
    Covered (piecesFrom p b 0 (c :: s)) (piecesFrom p b' 0 (c' :: s')) := by
  cases hm : p.matchAt? b (c :: s) with
  | none =>
    cases hm' : p.matchAt? b' (c' :: s') with
    | none =>
      rw [piecesFrom_of_none hm, piecesFrom_of_none hm']
      exact (hnext 0).plain c c'
    | some m' => rw [hm, hm'] at h; cases h
  | some m =>
    cases hm' : p.matchAt? b' (c' :: s') with
    | none => rw [hm, hm'] at h; cases h
    | some m' =>
      rw [hm, hm'] at h
      cases h with
      | some halike =>
        rw [piecesFrom_of_some hm, piecesFrom_of_some hm', halike.length_eq]
        exact (hnext _).hit halike

section Steady

variable {p : Pattern} (hp : p.isSteady = true) (hsome : p.takesSome = true)

include hp hsome

/-- Outside of literals a steady pattern matches the muted text as it does the text. -/
theorem alike_matchAt? {q b : Option Char} {w : Text} (hq : q ≠ some '\'')
    (hplain : Text.PlainFrom q w) (hclosed : Text.closingAt q w ≠ some '\'') :
    Option.Rel Match.Alike (p.matchAt? b w) (p.matchAt? b (Text.muteFrom q w)) := by
  have hstep : InStep ⟨b, w, []⟩ ⟨b, Text.muteFrom q w, []⟩ :=
    ⟨⟨q, hq, hplain, hclosed, rfl⟩, rfl, List.Forall₂.nil⟩
  have hways := hstep.ways hp
  rw [matchAt?_eq hsome, matchAt?_eq hsome]
  revert hways
  generalize Pattern.ways p ⟨b, w, []⟩ = cs
  generalize Pattern.ways p ⟨b, Text.muteFrom q w, []⟩ = ds
  intro hways
  cases hways with
  | nil => exact Option.Rel.none
  | cons hcd _ => exact Option.Rel.some (hcd.matchOf (veiled_muteFrom hplain))

omit hp hsome in
/-- No match begins with what stands in a muted literal. -/
theorem matchAt?_eq_none_of_skipsVeils (h : p.skipsVeils = true) {c : Char}
    (hc : c = ' ' ∨ c = '\'') (b : Option Char) (t : Text) : p.matchAt? b (c :: t) = none := by
  rw [skipsVeils, Bool.and_eq_true] at h
  rcases hc with rfl | rfl
  · exact matchAt?_eq_none_of_clashes h.1 b t
  · exact matchAt?_eq_none_of_clashes h.2 b t

/-- The matches among the pieces of the text that is read from `s` on are matches of the muted
text as well. The pattern matches nothing inside literals and begins with nothing that stands
in muted ones. -/
theorem covered_muteFrom (hveils : p.skipsVeils = true) {u s : Text}
    (hclosed : Text.Closed (u ++ s)) (hplain : Text.PlainFrom none (u ++ s))
    (hin : ∀ v w, u ++ s = v ++ w → Text.closingAt none v = some '\'' →
      p.matchAt? v.getLast? w = none) (skip : Nat) :
    Covered (piecesFrom p u.getLast? skip s)
      (piecesFrom p u.mute.getLast? skip (Text.muteFrom (Text.closingAt none u) s)) := by
  induction s generalizing u skip with
  | nil => cases skip <;> exact fun _ h => absurd h List.not_mem_nil
  | cons c s ih =>
    -- the next character as it stands in the muted text
    obtain ⟨c', hc'⟩ : ∃ c', c' = if Text.closingAt none u = some '\'' ∧ c ≠ '\'' then ' ' else c :=
      ⟨_, rfl⟩
    have happ : u ++ c :: s = u ++ [c] ++ s := by simp
    have hclosing : Text.closingAt none (u ++ [c]) = closingAfter (Text.closingAt none u) c :=
      Text.closingAt_append none u [c]
    have hcons : Text.muteFrom (Text.closingAt none u) (c :: s)
        = c' :: Text.muteFrom (Text.closingAt none (u ++ [c])) s := by
      rw [Text.muteFrom, hclosing, hc']
    have hlast : (u ++ [c]).mute.getLast? = some c' := by
      rw [Text.mute, Text.muteFrom_append, Text.muteFrom, hc', Text.muteFrom, List.getLast?_concat]
    have hnext := fun skip => @ih (u ++ [c]) (happ ▸ hclosed) (happ ▸ hplain) (happ ▸ hin) skip
    rw [hlast, List.getLast?_concat] at hnext
    rw [hcons]
    cases skip with
    | succ skip => exact hnext skip
    | zero =>
      refine covered_piecesFrom ?_ hnext
      by_cases hq : Text.closingAt none u = some '\''
      · have hveil : c' = ' ' ∨ c' = '\'' := by
          by_cases hc : c = '\'' <;> simp [hc', hq, hc]
        rw [hin u (c :: s) rfl hq, matchAt?_eq_none_of_skipsVeils hveils hveil]
        exact Option.Rel.none
      · rw [Text.mute, Text.getLast?_muteFrom hq, ← hcons]
        exact alike_matchAt? hp hsome hq hplain.append_right
          (by rw [← Text.closingAt_append, hclosed]; simp)

/-- A match of a steady pattern is one of the muted text as well. -/
theorem exists_hit_mute (hveils : p.skipsVeils = true) {t : Text}
    (hclosed : t.Closed) (hplain : Text.PlainFrom none t)
    (hin : ∀ v w, t = v ++ w → Text.closingAt none v = some '\'' →
      p.matchAt? v.getLast? w = none)
    {m : Match} (h : .hit m ∈ pieces p t) : ∃ m', .hit m' ∈ pieces p t.mute ∧ m.Alike m' :=
  covered_muteFrom hp hsome (u := []) hveils hclosed hplain hin 0 m h

end Steady

end Pattern

end SqlScribe
