import SqlScribe.Proofs.Expression.Calls
import SqlScribe.Proofs.Pattern.Hits

/-!
# Words that stand alone

A pattern that looks for words on their own finds them exactly where they stand without characters
of words around them. Where it also looks for a parenthesis behind the word, it finds the word
all the same, and the match tells whether the parenthesis is there. Main statements:

* `TakesAll.seq`, `takesAll_oneOf`: patterns that take each of their spellings wherever it stands;
* `mem_ways_edged`, `no_hit_edged_iff`: where a pattern with edges around it finds something;
* `hit_or_covered`: what a search does at a place where there is a match;
* `group?_calling`: whether a parenthesis was found behind a word.
-/

namespace SqlScribe

/-- Neither the text in front nor the text behind goes on with a character of words. -/
def StandsAlone (v s : Text) : Prop :=
  v.getLast?.any isWordChar = false ∧ s.head?.any isWordChar = false

instance (v s : Text) : Decidable (StandsAlone v s) := inferInstanceAs (Decidable (_ ∧ _))

/-- Somewhere in the text something stands alone that is a name in front of what follows. -/
def NamedIn (P : Text → Text → Prop) (t : Text) : Prop :=
  ∃ v g s, t = v ++ (g ++ s) ∧ StandsAlone v s ∧ P g s

theorem namedIn_or {P Q : Text → Text → Prop} {t : Text} :
    NamedIn (fun g s => P g s ∨ Q g s) t ↔ NamedIn P t ∨ NamedIn Q t := by
  constructor
  · rintro ⟨v, g, s, ht, halone, h | h⟩
    · exact Or.inl ⟨v, g, s, ht, halone, h⟩
    · exact Or.inr ⟨v, g, s, ht, halone, h⟩
  · rintro (⟨v, g, s, ht, halone, h⟩ | ⟨v, g, s, ht, halone, h⟩)
    · exact ⟨v, g, s, ht, halone, Or.inl h⟩
    · exact ⟨v, g, s, ht, halone, Or.inr h⟩

/-- At least one blank, and nothing else. -/
def IsGap (s : Text) : Prop := s ≠ [] ∧ ∀ c ∈ s, isBlank c = true

instance (s : Text) : Decidable (IsGap s) := inferInstanceAs (Decidable (_ ∧ _))

/-- Behind blanks the text opens a parenthesis: what stands in front of it is called. -/
def OpensCall (s : Text) : Prop := (s.dropWhile isBlank).head? = some '('

instance (s : Text) : Decidable (OpensCall s) := inferInstanceAs (Decidable (_ = _))

namespace Pattern

variable {p q r : Pattern} {b : Option Char} {c d : Cursor} {g s t v w : Text} {k : CharClass}

/-! ## Patterns that take each of their spellings -/

/-- Where a text that the pattern spells stands, there is a way that takes it. -/
def TakesAll (p : Pattern) : Prop :=
  ∀ c d, d ∈ ways p c ↔ ∃ g s, c.rest = g ++ s ∧ p.Spells g ∧ d = along c g s

theorem along_along (c : Cursor) (g s u r : Text) :
    along (along c g s) u r = along c (g ++ u) r := by
  rw [along, along, along, List.getLast?_append, Option.or_assoc]

theorem takesAll_empty : TakesAll empty := by
  intro c d
  rw [ways, List.mem_singleton]
  constructor
  · rintro rfl
    exact ⟨[], d.rest, rfl, rfl, (along_nil d).symm⟩
  · rintro ⟨g, s, hrest, rfl, rfl⟩
    rw [List.nil_append] at hrest
    rw [← hrest, along_nil]

theorem takesAll_one (k : CharClass) : TakesAll (one k) := by
  intro c d
  rw [mem_ways_one]
  constructor
  · rintro ⟨x, t, hrest, hx, rfl⟩
    exact ⟨[x], t, hrest, ⟨x, rfl, hx⟩, rfl⟩
  · rintro ⟨g, s, hrest, ⟨x, rfl, hx⟩, rfl⟩
    exact ⟨x, s, hrest, hx, rfl⟩

theorem mem_ways_seq : d ∈ ways (p ++ q) c ↔ ∃ e ∈ ways p c, d ∈ ways q e := List.mem_flatMap

theorem TakesAll.seq (hp : TakesAll p) (hq : TakesAll q) : TakesAll (p ++ q) := by
  intro c d
  rw [mem_ways_seq]
  constructor
  · rintro ⟨e, he, hd⟩
    obtain ⟨g, s, hrest, hg, rfl⟩ := (hp c e).1 he
    obtain ⟨u, r, hs, hu, rfl⟩ := (hq _ d).1 hd
    obtain rfl : s = u ++ r := hs
    exact ⟨g ++ u, r, by rw [hrest, List.append_assoc], ⟨g, u, rfl, hg, hu⟩, along_along c g _ u r⟩
  · rintro ⟨_, r, hrest, ⟨g, u, rfl, hg, hu⟩, rfl⟩
    rw [List.append_assoc] at hrest
    exact ⟨along c g (u ++ r), (hp c _).2 ⟨g, _, hrest, hg, rfl⟩,
      (hq _ _).2 ⟨u, r, rfl, hu, (along_along c g _ u r).symm⟩⟩

theorem TakesAll.alt (hp : TakesAll p) (hq : TakesAll q) : TakesAll (alt p q) := by
  intro c d
  rw [ways, List.mem_append, hp c d, hq c d]
  constructor
  · rintro (⟨g, s, hrest, hg, hd⟩ | ⟨g, s, hrest, hg, hd⟩)
    · exact ⟨g, s, hrest, Or.inl hg, hd⟩
    · exact ⟨g, s, hrest, Or.inr hg, hd⟩
  · rintro ⟨g, s, hrest, hg | hg, hd⟩
    · exact Or.inl ⟨g, s, hrest, hg, hd⟩
    · exact Or.inr ⟨g, s, hrest, hg, hd⟩

theorem takesAll_letters (w : Text) : TakesAll (letters w) := by
  induction w with
  | nil => exact takesAll_empty
  | cons x w ih => exact (takesAll_one _).seq ih

theorem takesAll_oneOf {ps : List Pattern} (h : ∀ p ∈ ps, TakesAll p) : TakesAll (oneOf ps) := by
  induction ps with
  | nil => exact takesAll_one _
  | cons p ps ih =>
    obtain ⟨hp, hps⟩ := List.forall_mem_cons.1 h
    cases ps with
    | nil => exact hp
    | cons q ps => exact hp.alt (ih hps)

/-- A run is taken whole, so what follows may not begin with a character of its class. -/
theorem takesAll_run_seq (hq : TakesAll q)
    (hhead : ∀ g, q.Spells g → ∃ x, g.head? = some x ∧ k.has x = false) :
    TakesAll (run k ++ q) := by
  intro c d
  simp only [mem_ways_seq, (takesMany_run k).mem_ways]
  constructor
  · rintro ⟨e, ⟨u, r, hrest, hall, -, rfl⟩, hd⟩
    obtain ⟨g, s, hr, hg, rfl⟩ := (hq _ d).1 hd
    obtain rfl : r = g ++ s := hr
    exact ⟨u ++ g, s, by rw [hrest, List.append_assoc], ⟨u, g, rfl, hall, hg⟩,
      along_along c u _ g s⟩
  · rintro ⟨_, s, hrest, ⟨u, g, rfl, hall, hg⟩, rfl⟩
    obtain ⟨x, hx, hnot⟩ := hhead g hg
    rw [List.append_assoc] at hrest
    refine ⟨along c u (g ++ s), ⟨u, g ++ s, hrest, hall, fun _ y hy => ?_, rfl⟩,
      (hq _ _).2 ⟨g, s, rfl, hg, (along_along c u _ g s).symm⟩⟩
    rw [List.head?_append, hx, Option.some_or] at hy
    exact Option.some.inj hy ▸ hnot

theorem mem_ways_assoc : d ∈ ways (p ++ q ++ r) c ↔ d ∈ ways (p ++ (q ++ r)) c := by
  simp only [mem_ways_seq]
  exact ⟨fun ⟨e, ⟨f, hf, he⟩, hd⟩ => ⟨f, hf, e, he, hd⟩,
    fun ⟨f, hf, e, he, hd⟩ => ⟨e, ⟨f, hf, he⟩, hd⟩⟩

theorem TakesAll.assoc (h : TakesAll (p ++ (q ++ r))) : TakesAll (p ++ q ++ r) := by
  have hspells : ∀ g, (p ++ q ++ r).Spells g ↔ (p ++ (q ++ r)).Spells g := by
    intro g
    constructor
    · rintro ⟨_, z, rfl, ⟨x, y, rfl, hx, hy⟩, hz⟩
      exact ⟨x, y ++ z, List.append_assoc x y z, hx, y, z, rfl, hy, hz⟩
    · rintro ⟨x, _, rfl, hx, y, z, rfl, hy, hz⟩
      exact ⟨x ++ y, z, (List.append_assoc x y z).symm, ⟨x, y, rfl, hx, hy⟩, hz⟩
  intro c d
  rw [mem_ways_assoc, h c d]
  simp only [hspells]

/-! ## Patterns with edges around them -/

/-- What the pattern spells begins and ends with a character of words. -/
def IsWordy (p : Pattern) : Prop := ∀ g, p.Spells g →
  (∃ x, g.head? = some x ∧ isWordChar x = true) ∧ ∃ y, g.getLast? = some y ∧ isWordChar y = true

theorem isWordy_of_chars (h : ∀ g, p.Spells g → g ≠ [] ∧ ∀ x ∈ g, isWordChar x = true) :
    p.IsWordy := by
  intro g hg
  obtain ⟨hne, hall⟩ := h g hg
  exact ⟨⟨g.head hne, List.head?_eq_some_head hne, hall _ (List.head_mem hne)⟩,
    g.getLast hne, List.getLast?_eq_some_getLast hne, hall _ (List.getLast_mem hne)⟩

/-- Words are made of characters of words. -/
theorem isWordChar_of_spells_oneOf {ws : List Text}
    (hws : ∀ w ∈ ws, w ≠ [] ∧ ∀ x ∈ w, isLabelChar x = true)
    (h : (oneOf (ws.map letters)).Spells g) : g ≠ [] ∧ ∀ x ∈ g, isWordChar x = true := by
  obtain ⟨n, hn, hsame⟩ := of_spells_oneOf h
  exact ⟨hsame.ne_nil (hws n hn).1, hsame.isWordChar (hws n hn).2⟩

theorem spells_oneOf_iff {ws : List Text} :
    (oneOf (ws.map letters)).Spells g ↔ ∃ n ∈ ws, SameLetters g n := by
  refine ⟨of_spells_oneOf, ?_⟩
  induction ws with
  | nil => exact fun h => absurd h (by simp)
  | cons w ws ih =>
    rintro ⟨n, hn, hsame⟩
    cases ws with
    | nil => exact spells_letters.2 (List.mem_singleton.1 hn ▸ hsame)
    | cons v ws =>
      rcases List.mem_cons.1 hn with rfl | hn
      · exact Or.inl (spells_letters.2 hsame)
      · exact Or.inr (ih ⟨n, hn, hsame⟩)

theorem spells_blanks1_iff : blanks1.Spells g ↔ IsGap g := by
  constructor
  · rintro ⟨_, r, rfl, ⟨x, rfl, hx⟩, hr⟩
    exact ⟨List.cons_ne_nil x r, List.forall_mem_cons.2 ⟨hx, hr⟩⟩
  · rintro ⟨hne, hall⟩
    obtain ⟨x, r, rfl⟩ := List.exists_cons_of_ne_nil hne
    obtain ⟨hx, hr⟩ := List.forall_mem_cons.1 hall
    exact ⟨[x], r, rfl, ⟨x, rfl, hx⟩, hr⟩

theorem mem_ways_edge : d ∈ ways edge c ↔ d = c ∧ Anchor.wordEdge.holds c.before c.rest = true := by
  rw [edge, ways]
  split
  · next h => simp [h]
  · next h => simp [h]

/-- With edges around it a pattern takes what stands alone. -/
theorem mem_ways_edged (hp : TakesAll p) (hw : p.IsWordy) :
    d ∈ ways (edge ++ p ++ edge) c ↔ ∃ g s, c.rest = g ++ s ∧ p.Spells g ∧
      c.before.any isWordChar = false ∧ s.head?.any isWordChar = false ∧ d = along c g s := by
  have hstart : ∀ {g s : Text}, p.Spells g →
      (Anchor.wordEdge.holds c.before (g ++ s) = true ↔ c.before.any isWordChar = false) := by
    intro g s hg
    obtain ⟨⟨x, hx, hword⟩, -⟩ := hw g hg
    rw [Anchor.holds, List.head?_append, hx, Option.some_or, Option.any_some, hword]
    cases c.before.any isWordChar <;> simp
  have hend : ∀ {g s : Text}, p.Spells g →
      (Anchor.wordEdge.holds (along c g s).before s = true ↔ s.head?.any isWordChar = false) := by
    intro g s hg
    obtain ⟨-, y, hy, hword⟩ := hw g hg
    rw [Anchor.holds, along, hy, Option.some_or, Option.any_some, hword]
    cases s.head?.any isWordChar <;> simp
  simp only [mem_ways_seq, mem_ways_edge]
  constructor
  · rintro ⟨_, ⟨_, ⟨rfl, hfront⟩, hd⟩, rfl, hbehind⟩
    obtain ⟨g, s, hrest, hg, rfl⟩ := (hp _ _).1 hd
    rw [hrest] at hfront
    exact ⟨g, s, hrest, hg, (hstart hg).1 hfront, (hend hg).1 hbehind, rfl⟩
  · rintro ⟨g, s, hrest, hg, hfront, hbehind, rfl⟩
    exact ⟨_, ⟨c, ⟨rfl, hrest ▸ (hstart hg).2 hfront⟩, (hp c _).2 ⟨g, s, hrest, hg, rfl⟩⟩, rfl,
      (hend hg).2 hbehind⟩

/-- A search with edges finds nothing exactly where nothing stands alone. -/
theorem no_hit_edged_iff (hp : TakesAll p) (hw : p.IsWordy) (hsome : p.takesSome = true) :
    (∀ m, .hit m ∉ pieces (edge ++ p ++ edge) t) ↔ ¬ NamedIn (fun g _ => p.Spells g) t := by
  have hedged : (edge ++ p ++ edge).takesSome = true := by
    show ((false || p.takesSome) || false) = true
    rw [hsome]
    rfl
  constructor
  · rintro h ⟨v, g, s, ht, ⟨hv, hs⟩, hg⟩
    have hnone := matchAt?_eq_none_of_no_hit h ht
    rw [matchAt?_eq_none_iff hedged] at hnone
    have hmem : along ⟨v.getLast?, g ++ s, []⟩ g s
        ∈ ways (edge ++ p ++ edge) ⟨v.getLast?, g ++ s, []⟩ :=
      (mem_ways_edged hp hw).2 ⟨g, s, rfl, hg, hv, hs, rfl⟩
    exact absurd (hnone ▸ hmem) List.not_mem_nil
  · intro h m hm
    obtain ⟨v, w, ht, hmatch⟩ := matchAt?_of_mem_pieces hm
    have hne : ways (edge ++ p ++ edge) ⟨v.getLast?, w, []⟩ ≠ [] := fun hnil => by
      rw [(matchAt?_eq_none_iff hedged).2 hnil] at hmatch
      exact absurd hmatch.symm (Option.some_ne_none m)
    obtain ⟨d, hd⟩ := List.exists_mem_of_ne_nil _ hne
    obtain ⟨g, s, hrest, hg, hv, hs, -⟩ := (mem_ways_edged hp hw).1 hd
    exact h ⟨v, g, s, by rw [ht]; exact congrArg (v ++ ·) hrest, ⟨hv, hs⟩, hg⟩

/-! ## Places with a match -/

theorem hit_or_covered_from {m : Match} (h : p.matchAt? (v.getLast?.or b) w = some m) :
    .hit m ∈ piecesFrom p b 0 (v ++ w) ∨ ∃ v' x m', v = v' ++ x ∧ x ≠ [] ∧
      p.matchAt? (v'.getLast?.or b) (x ++ w) = some m' ∧ x.length < m'.text.length := by
  induction hn : v.length using Nat.strong_induction_on generalizing v b with
  | _ n ih =>
    cases v with
    | nil =>
      have hm : p.matchAt? b w = some m := h
      obtain ⟨-, happ⟩ := matchAt?_text hm
      rw [← happ] at hm ⊢
      rw [List.nil_append, piecesFrom_hit hm rfl]
      exact Or.inl List.mem_cons_self
    | cons y v =>
      cases hm : p.matchAt? b (y :: (v ++ w)) with
      | none =>
        rw [Text.getLast?_cons_or] at h
        rw [List.cons_append, piecesFrom_of_none hm]
        rcases ih v.length (by simp [← hn]) h rfl with hit | ⟨v', x, m', rfl, hx, hmatch, hlt⟩
        · exact Or.inl (List.mem_cons_of_mem _ hit)
        · exact Or.inr ⟨y :: v', x, m', rfl, hx, by rwa [Text.getLast?_cons_or], hlt⟩
      | some m' =>
        obtain ⟨hne, happ⟩ := matchAt?_text hm
        rcases Nat.lt_or_ge (y :: v).length m'.text.length with hlt | hle
        · exact Or.inr ⟨[], y :: v, m', rfl, List.cons_ne_nil y v, hm, hlt⟩
        · -- the match ends in front of the place, and the search goes on behind it
          obtain ⟨x, hx⟩ : m'.text <+: y :: v :=
            List.prefix_of_prefix_length_le ⟨m'.after, happ⟩ (List.prefix_append _ w) hle
          rw [← List.cons_append, ← hx, List.append_assoc] at hm
          rw [← hx, List.append_assoc]
          rw [← hx, List.getLast?_append, Option.or_assoc] at h
          have hlength : x.length < n := by
            have hpos := List.length_pos_iff.2 hne
            rw [← hn, ← hx, List.length_append]
            omega
          rw [piecesFrom_hit hm rfl]
          rcases ih x.length hlength h rfl with hit | ⟨v', x', m'', rfl, hx', hmatch, hlt⟩
          · exact Or.inl (List.mem_cons_of_mem _ hit)
          · refine Or.inr ⟨m'.text ++ v', x', m'', by rw [List.append_assoc], hx', ?_, hlt⟩
            rwa [List.getLast?_append, Option.or_assoc]

/-- A match is found, or the place lies within one that begins before it. -/
theorem hit_or_covered {m : Match} (h : p.matchAt? v.getLast? w = some m) :
    .hit m ∈ pieces p (v ++ w) ∨ ∃ v' x m', v = v' ++ x ∧ x ≠ [] ∧
      p.matchAt? v'.getLast? (x ++ w) = some m' ∧ x.length < m'.text.length := by
  simpa only [Option.or_none, pieces] using
    hit_or_covered_from (b := none) (by rwa [Option.or_none])

/-! ## A parenthesis behind a word -/

theorem takesAll_literal (w : Text) : TakesAll (literal w) := by
  induction w with
  | nil => exact takesAll_empty
  | cons x w ih => exact (takesAll_one _).seq ih

/-- A parenthesis behind blanks is found where there is one. -/
theorem exists_mem_ways_paren : (∃ d, d ∈ ways (blanks ++ literal "(") c) ↔ OpensCall c.rest := by
  constructor
  · rintro ⟨d, hd⟩
    obtain ⟨e, he, hd⟩ := mem_ways_seq.1 hd
    obtain ⟨u, r, hrest, hall, hstop, rfl⟩ := ((takesMany_run _).mem_ways c e).1 he
    obtain ⟨g, s, hr, hg, -⟩ := (takesAll_literal _ _ d).1 hd
    obtain rfl := spells_literal.1 hg
    obtain rfl : r = '(' :: s := hr
    have hdrop : c.rest.dropWhile isBlank = '(' :: s := by
      rw [hrest]
      exact Text.dropWhile_append_of_head hall (hstop rfl)
    rw [OpensCall, hdrop]
    rfl
  · intro h
    obtain ⟨s, hs⟩ := List.head?_eq_some_iff.1 h
    have hrun : along c (c.rest.takeWhile isBlank) ('(' :: s) ∈ ways blanks c := by
      refine ((takesMany_run _).mem_ways c _).2
        ⟨_, _, ?_, fun x hx => List.mem_takeWhile_imp hx, ?_, rfl⟩
      · rw [← hs]
        exact List.takeWhile_append_dropWhile.symm
      · rintro - x hx
        exact Option.some.inj hx ▸ (by decide)
    exact ⟨_, mem_ways_seq.2
      ⟨_, hrun, (takesAll_literal _ _ _).2 ⟨['('], s, rfl, spells_literal.2 rfl, rfl⟩⟩⟩

/-- The match of a pattern that also looks for a parenthesis tells whether there is one. -/
theorem group?_calling {ds : List Cursor} (hp : p.takesSome = true)
    (hways : ways p ⟨b, w, []⟩ = along ⟨b, w, []⟩ g s :: ds) (hw : w = g ++ s) :
    ∃ m, (p ++ opt (group 1 (blanks ++ literal "("))).matchAt? b w = some m ∧
      (OpensCall s → m.group? 1 ≠ none) ∧ (¬ OpensCall s → m.group? 1 = none ∧ m.text = g) := by
  have hsome : (p ++ opt (group 1 (blanks ++ literal "("))).takesSome = true := by
    show (p.takesSome || _) = true
    rw [hp, Bool.true_or]
  have hseq : ways (p ++ opt (group 1 (blanks ++ literal "("))) ⟨b, w, []⟩ =
      ((ways (blanks ++ literal "(") (along ⟨b, w, []⟩ g s)).map ((along ⟨b, w, []⟩ g s).capture 1)
        ++ [along ⟨b, w, []⟩ g s]) ++ ds.flatMap
        (ways (opt (group 1 (blanks ++ literal "(")))) := by
    show (ways p _).flatMap _ = _
    rw [hways, List.flatMap_cons]
    rfl
  rw [matchAt?_eq hsome, hseq]
  cases hparen : ways (blanks ++ literal "(") (along ⟨b, w, []⟩ g s) with
  | nil =>
    have hnot : ¬ OpensCall s := fun h => by
      obtain ⟨d, hd⟩ := exists_mem_ways_paren.2 (show OpensCall (along ⟨b, w, []⟩ g s).rest from h)
      exact absurd (hparen ▸ hd) List.not_mem_nil
    exact ⟨_, rfl, fun h => absurd h hnot, fun _ => ⟨rfl, text_of_append hw⟩⟩
  | cons e es =>
    have hcalls : OpensCall s := exists_mem_ways_paren.1 ⟨e, hparen ▸ List.mem_cons_self⟩
    refine ⟨_, rfl, fun _ => ?_, fun h => absurd hcalls h⟩
    simp [Match.group?, matchOf, Cursor.capture]

end Pattern

end SqlScribe
