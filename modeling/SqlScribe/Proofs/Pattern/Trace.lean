import SqlScribe.Proofs.Clause.Literal
import SqlScribe.Proofs.Pattern.Search

/-!
# Patterns and literals

Where a pattern may be on its way through a text, seen from the literals of the text. A way
outside of literals is one through the text with its literals blanked out as well, and a way
that begins in a literal is one through this literal alone, as long as the pattern does not
depend on what a literal says. `Pattern.trace` finds out whether it does: it follows a
pattern through the stages a way may be in, without a text. Main statements:

* `TakesMany.sound`: what is known behind any number of characters of a class;
* `trace_sound`: every way of a text is at one of the stages that the trace lists.
-/

namespace SqlScribe

/-- The characters that rules look for around and between names and arguments. -/
def ruleMarks : List Char := ['(', ')', '[', ']', ',', '*', '\x60']

/-- The literals in the rest of a text hold none of the marks of rules. -/
def Text.PlainFrom (q : Option Char) (t : Text) : Prop :=
  ∀ w ∈ Text.literalsFrom q t, ∀ c ∈ w, c ∉ ruleMarks

namespace Text

theorem PlainFrom.tail {q : Option Char} {c : Char} {t : Text} (h : PlainFrom q (c :: t)) :
    PlainFrom (closingAfter q c) t := by
  by_cases hq : q = some '\''
  · subst hq
    by_cases hc : c = '\''
    · subst hc
      intro w hw
      refine h w ?_
      rw [literalsFrom_closing]
      exact List.mem_cons_of_mem _ hw
    · rw [closingAfter_some, if_neg hc]
      intro u hu x hx
      -- the first of the literals was longer by this character
      have hmem : u ∈ literalsFrom (some '\'') (c :: t) ∨
          c :: u ∈ literalsFrom (some '\'') (c :: t) := by
        rw [literalsFrom_inside hc]
        exact mem_prepend_of_mem hu
      rcases hmem with hmem | hmem
      · exact h u hmem x hx
      · exact h (c :: u) hmem x (List.mem_cons_of_mem c hx)
  · intro w hw
    refine h w ?_
    rw [literalsFrom_outside hq]
    exact hw

theorem PlainFrom.append_right {q : Option Char} {u t : Text} (h : PlainFrom q (u ++ t)) :
    PlainFrom (closingAt q u) t := by
  induction u generalizing q with
  | nil => exact h
  | cons c u ih => exact ih h.tail

theorem PlainFrom.head {c : Char} {t : Text} (h : PlainFrom (some '\'') (c :: t))
    (hc : c ≠ '\'') : c ∉ ruleMarks := by
  obtain ⟨w, hw⟩ := exists_mem_prepend c (literalsFrom (some '\'') t)
  exact h (c :: w) (by rwa [literalsFrom_inside hc]) c List.mem_cons_self

/-- Where no single quote stands no literal begins. -/
theorem closingAt_ne_quote {q : Option Char} (hq : q ≠ some '\'') {u : Text} (hu : '\'' ∉ u) :
    closingAt q u ≠ some '\'' ∧ muteFrom q u = u := by
  induction u generalizing q with
  | nil => exact ⟨hq, rfl⟩
  | cons c u ih =>
    rw [List.mem_cons, not_or] at hu
    have hnext : closingAfter q c ≠ some '\'' := by
      intro h
      rcases closingAfter_eq_quote_iff.1 h with ⟨h, -⟩ | ⟨-, rfl⟩
      · exact hq h
      · exact hu.1 rfl
    obtain ⟨hclosing, hmute⟩ := ih hnext hu.2
    exact ⟨hclosing, by rw [muteFrom_cons hq, hmute]⟩

/-- Where no single quote stands a literal goes on. -/
theorem closingAt_quote {u : Text} (hu : '\'' ∉ u) : closingAt (some '\'') u = some '\'' := by
  induction u with
  | nil => rfl
  | cons c u ih =>
    rw [List.mem_cons, not_or] at hu
    show closingAt (closingAfter (some '\'') c) u = _
    rw [closingAfter_some, if_neg fun h => hu.1 h.symm, ih hu.2]

theorem head?_muteFrom {q : Option Char} (hq : q ≠ some '\'') (t : Text) :
    (muteFrom q t).head? = t.head? := by
  cases t with
  | nil => rfl
  | cons c t => rw [muteFrom_cons hq]; rfl

end Text

/-! ## Classes and the characters of literals -/

namespace CharClass

/-- The class has every character but some marks: it does not tell what a literal says from
blanks. -/
def isBlind : CharClass → Bool
  | any => true
  | other (among cs) => cs.all ruleMarks.contains
  | _ => false

/-- The class has marks only: none of its characters is in a literal. -/
def isMarks : CharClass → Bool
  | among cs => cs.all ruleMarks.contains
  | _ => false

theorem has_of_isBlind {k : CharClass} (hk : k.isBlind = true) {c : Char} (hc : c ∉ ruleMarks) :
    k.has c = true := by
  unfold isBlind at hk
  split at hk
  · rfl
  · next cs =>
    rw [has, has, Bool.not_eq_true', ← Bool.not_eq_true, List.contains_iff_mem]
    intro hmem
    exact hc (List.contains_iff_mem.1 (List.all_eq_true.1 hk c hmem))
  · exact absurd hk (by simp)

theorem mem_of_isMarks {k : CharClass} (hk : k.isMarks = true) {c : Char} (hc : k.has c = true) :
    c ∈ ruleMarks := by
  unfold isMarks at hk
  split at hk
  · next cs =>
    rw [has, List.contains_iff_mem] at hc
    exact List.contains_iff_mem.1 (List.all_eq_true.1 hk c hc)
  · exact absurd hk (by simp)

end CharClass

/-- What a condition says depends on the next character only. -/
theorem Anchor.holds_congr (a : Anchor) (b : Option Char) {t u : Text} (h : t.head? = u.head?) :
    a.holds b t = a.holds b u := by
  have hempty : t.isEmpty = u.isEmpty := by
    cases t <;> cases u <;> first | rfl | exact absurd h (by simp)
  cases a <;> simp only [Anchor.holds, h, hempty]

/-! ## Stages of a way -/

/-- A place without what was captured on the way there. -/
abbrev Place := Option Char × Text

def Cursor.place (c : Cursor) : Place := (c.before, c.rest)

/-- Where a way through a text may be, and what is known of ways through another text then. -/
inductive Stage where
  /-- Outside of literals; a way through the muted text is at the same place. -/
  | outside
  /-- In a literal; a way through the muted text is at the same place. -/
  | inside
  /-- In a literal, with nothing known of other ways. -/
  | lost
  /-- In a literal; a way through the literal alone is at the same place. -/
  | alone
  /-- Anywhere; there is some way through the other text. -/
  | past
deriving DecidableEq, Repr

/-- A way at this place is at the stage, when there are ways at the places `ds` of the other
text. -/
def Stage.Holds : Stage → Place → List Place → Prop
  | outside, c, ds =>
      ∃ q, q ≠ some '\'' ∧ Text.PlainFrom q c.2 ∧ (c.1, Text.muteFrom q c.2) ∈ ds
  | inside, c, ds =>
      Text.PlainFrom (some '\'') c.2 ∧ ∃ b, (b, Text.muteFrom (some '\'') c.2) ∈ ds
  | lost, c, _ => Text.PlainFrom (some '\'') c.2
  | alone, c, ds =>
      ∃ w s, c.2 = w ++ '\'' :: s ∧ (∀ x ∈ w, x ∉ ruleMarks) ∧ '\'' ∉ w ∧ (c.1, w ++ ['\'']) ∈ ds
  | past, _, ds => ds ≠ []

theorem Stage.Holds.mono {s : Stage} {c : Place} {ds es : List Place} (h : s.Holds c ds)
    (hsub : ds ⊆ es) : s.Holds c es := by
  cases s with
  | outside =>
    obtain ⟨q, hq, hplain, hmem⟩ := h
    exact ⟨q, hq, hplain, hsub hmem⟩
  | inside =>
    obtain ⟨hplain, b, hmem⟩ := h
    exact ⟨hplain, b, hsub hmem⟩
  | lost => exact h
  | alone =>
    obtain ⟨w, s, hw, hplain, hquote, hmem⟩ := h
    exact ⟨w, s, hw, hplain, hquote, hsub hmem⟩
  | past => exact fun hes => h (List.subset_nil.1 (hes ▸ hsub))

/-- At every stage but one there is another way. -/
theorem Stage.Holds.ne_nil {s : Stage} (hs : s ≠ .lost) {c : Place} {ds : List Place}
    (h : s.Holds c ds) : ds ≠ [] := by
  rintro rfl
  cases s with
  | outside =>
    obtain ⟨_, -, -, hmem⟩ := h
    exact absurd hmem List.not_mem_nil
  | inside =>
    obtain ⟨-, _, hmem⟩ := h
    exact absurd hmem List.not_mem_nil
  | lost => exact hs rfl
  | alone =>
    obtain ⟨_, _, -, -, -, hmem⟩ := h
    exact absurd hmem List.not_mem_nil
  | past => exact h rfl

namespace Pattern

/-! ## The trace of a pattern -/

/-- The stages behind one character of a class; `none` where nothing can be said. -/
def traceOne (k : CharClass) : Stage → Option (List Stage)
  | .outside => some (if k.has '\'' then [.outside, .inside] else [.outside])
  | .inside =>
      if k.isBlind then some [.outside, .inside]
      else if k.has '\'' then none
      else some (if k.isMarks then [] else [.lost])
  | .lost => if k.has '\'' then none else some (if k.isMarks then [] else [.lost])
  | .alone =>
      some ((if k.isMarks then [] else [.alone]) ++ if k.has '\'' then [.past] else [])
  | .past => none

/-- The stages behind any number of characters of a class. -/
def traceMany (k : CharClass) : Stage → Option (List Stage)
  | .outside =>
      some (if k.isBlind then [.outside, .inside]
        else if k.has '\'' then [.past] else [.outside])
  | .inside =>
      some (if k.isBlind then [.outside, .inside]
        else if k.has '\'' then [.past] else [.lost])
  | .lost => if k.has '\'' then none else some [.lost]
  | .alone => some (if k.has '\'' then [.alone, .past] else [.alone])
  | .past => some [.past]

/-- The stages behind a condition on a place. -/
def traceAnchor : Stage → Option (List Stage)
  | .outside => some [.outside]
  | .inside | .lost => some [.lost]
  | .alone => some [.alone]
  | .past => none

/-- The stages that are reached from some stage of a list. -/
def traceAll (next : Stage → Option (List Stage)) : List Stage → Option (List Stage)
  | [] => some []
  | s :: ss =>
      match next s, traceAll next ss with
      | some xs, some ys => some (xs ∪ ys)
      | _, _ => none

/-- The stages a way through the pattern may end at when it begins at a stage; `none` where
nothing can be said. -/
def trace : Pattern → Stage → Option (List Stage)
  | empty, s => some [s]
  | one k, s => traceOne k s
  | run k, s => traceMany k s
  | anchor _, s => traceAnchor s
  | seq p q, s =>
      match trace p s with
      | some ss => traceAll (trace q) ss
      | none => none
  | alt p q, s =>
      match trace p s, trace q s with
      | some xs, some ys => some (xs ∪ ys)
      | _, _ => none
  | star (one k), s => traceMany k s
  | lazyStar (one k), s => traceMany k s
  | group _ p, s => trace p s
  | star _, _ | lazyStar _, _ | commit _, _ => none

/-! ## Ways through classes -/

/-- The places of the ways that start at the places of a list. -/
def nextPlaces (p : Pattern) (ds : List Cursor) : List Place :=
  (ds.flatMap (ways p)).map Cursor.place

theorem mem_nextPlaces {p : Pattern} {ds : List Cursor} {d e : Cursor} (hd : d ∈ ds)
    (he : e ∈ ways p d) : e.place ∈ nextPlaces p ds :=
  List.mem_map_of_mem (List.mem_flatMap.2 ⟨d, hd, he⟩)

theorem mem_ways_one {k : CharClass} {c d : Cursor} :
    d ∈ ways (one k) c ↔
      ∃ x t, c.rest = x :: t ∧ k.has x = true ∧ d = ⟨some x, t, c.captures⟩ := by
  rw [ways, Option.mem_toList, Cursor.one?]
  constructor
  · intro h
    split at h
    · exact absurd h (by simp)
    · next x t hrest =>
      split at h
      · next hx => exact ⟨x, t, hrest, hx, (Option.some.inj h).symm⟩
      · exact absurd h (by simp)
  · rintro ⟨x, t, hrest, hx, rfl⟩
    simp [hrest, hx]

/-- The place behind the characters `u`, in front of `r`. -/
def along (c : Cursor) (u r : Text) : Cursor := ⟨u.getLast?.or c.before, r, c.captures⟩

theorem along_nil (c : Cursor) : along c [] c.rest = c := rfl

theorem along_cons (c : Cursor) (x : Char) (t u r : Text) :
    along ⟨some x, t, c.captures⟩ u r = along c (x :: u) r := by
  rw [along, along, Text.getLast?_cons_or]

/-- Some steps through a class are some of its characters. -/
theorem mem_longestFirst_one {k : CharClass} {n : Nat} {c d : Cursor} :
    d ∈ longestFirst (ways (one k)) n c ↔
      ∃ u r, c.rest = u ++ r ∧ u.length ≤ n ∧ (∀ x ∈ u, k.has x = true) ∧ d = along c u r := by
  induction n generalizing c with
  | zero =>
    rw [longestFirst, List.mem_singleton]
    constructor
    · rintro rfl
      exact ⟨[], d.rest, rfl, Nat.le_refl 0, by simp, rfl⟩
    · rintro ⟨u, r, hrest, hlength, -, rfl⟩
      obtain rfl := List.eq_nil_of_length_eq_zero (Nat.le_zero.1 hlength)
      rw [List.nil_append] at hrest
      rw [← hrest, along_nil]
  | succ n ih =>
    rw [longestFirst, List.mem_append, List.mem_flatMap, List.mem_singleton]
    constructor
    · rintro (⟨e, he, hd⟩ | rfl)
      · obtain ⟨x, t, hrest, hx, rfl⟩ := mem_ways_one.1 he
        obtain ⟨u, r, ht, hlength, hall, rfl⟩ := ih.1 hd
        obtain rfl : t = u ++ r := ht
        refine ⟨x :: u, r, hrest, Nat.succ_le_succ hlength, fun y hy => ?_, along_cons c x _ u r⟩
        rcases List.mem_cons.1 hy with rfl | hy
        · exact hx
        · exact hall y hy
      · exact ⟨[], d.rest, rfl, Nat.zero_le _, by simp, rfl⟩
    · rintro ⟨u, r, hrest, hlength, hall, rfl⟩
      cases u with
      | nil =>
        rw [List.nil_append] at hrest
        exact Or.inr (by rw [← hrest, along_nil])
      | cons x u =>
        refine Or.inl ⟨⟨some x, u ++ r, c.captures⟩,
          mem_ways_one.2 ⟨x, u ++ r, hrest, hall x List.mem_cons_self, rfl⟩, ?_⟩
        refine ih.2 ⟨u, r, rfl, Nat.le_of_succ_le_succ hlength,
          fun y hy => hall y (List.mem_cons_of_mem x hy), ?_⟩
        rw [along_cons]

theorem mem_shortestFirst_iff {step : Cursor → List Cursor} {n : Nat} {c d : Cursor} :
    d ∈ shortestFirst step n c ↔ d ∈ longestFirst step n c := by
  induction n generalizing c with
  | zero => exact Iff.rfl
  | succ n ih =>
    rw [shortestFirst, longestFirst, List.mem_cons, List.mem_append, List.mem_flatMap,
      List.mem_flatMap, List.mem_singleton, or_comm]
    simp only [ih]

/-- A pattern that takes characters of a class, as many as there are when it is `greedy`. -/
structure TakesMany (p : Pattern) (k : CharClass) (greedy : Bool) : Prop where
  mem_ways : ∀ c d, d ∈ ways p c ↔ ∃ u r, c.rest = u ++ r ∧ (∀ x ∈ u, k.has x = true) ∧
    (greedy = true → ∀ x, r.head? = some x → k.has x = false) ∧ d = along c u r

theorem takesMany_star (k : CharClass) : TakesMany (star (one k)) k false := by
  constructor
  intro c d
  rw [ways, mem_longestFirst_one]
  constructor
  · rintro ⟨u, r, hrest, -, hall, hd⟩
    exact ⟨u, r, hrest, hall, by simp, hd⟩
  · rintro ⟨u, r, hrest, hall, -, hd⟩
    exact ⟨u, r, hrest, by rw [hrest]; simp, hall, hd⟩

theorem takesMany_lazyStar (k : CharClass) : TakesMany (lazyStar (one k)) k false := by
  constructor
  intro c d
  rw [ways, mem_shortestFirst_iff, ← (takesMany_star k).mem_ways, ways]

theorem spanRun_eq (k : CharClass) (b : Option Char) (t : Text) :
    Cursor.spanRun k b t = ((t.takeWhile k.has).getLast?.or b, t.dropWhile k.has) := by
  induction t generalizing b with
  | nil => rfl
  | cons x t ih =>
    rw [Cursor.spanRun]
    by_cases hx : k.has x = true
    · rw [if_pos hx, ih, List.takeWhile_cons_of_pos hx, List.dropWhile_cons_of_pos hx,
        Text.getLast?_cons_or]
    · rw [if_neg hx, List.takeWhile_cons_of_neg hx, List.dropWhile_cons_of_neg hx]
      rfl

theorem takesMany_run (k : CharClass) : TakesMany (run k) k true := by
  constructor
  intro c d
  have hrun : c.run k = along c (c.rest.takeWhile k.has) (c.rest.dropWhile k.has) := by
    rw [Cursor.run, spanRun_eq]
    rfl
  rw [ways, List.mem_singleton, hrun]
  constructor
  · rintro rfl
    refine ⟨_, _, List.takeWhile_append_dropWhile.symm,
      fun x hx => List.all_eq_true.1 List.all_takeWhile x hx, fun _ x hx => ?_, rfl⟩
    have hnot := List.head?_dropWhile_not k.has c.rest
    rw [hx] at hnot
    simpa using hnot
  · rintro ⟨u, r, hrest, hall, hstop, rfl⟩
    rw [hrest, Text.takeWhile_append_of_head hall (hstop rfl),
      Text.dropWhile_append_of_head hall (hstop rfl)]

/-! ## The trace is sound -/

/-- What a trace says of a pattern is true: of the ways that start at a stage, each is at one
of the stages that are listed. -/
def Sound (p : Pattern) (s : Stage) (ss : List Stage) : Prop :=
  ∀ (c : Cursor) (ds : List Cursor), s.Holds c.place (ds.map Cursor.place) →
    ∀ d ∈ ways p c, ∃ s' ∈ ss, s'.Holds d.place (nextPlaces p ds)

theorem sound_one {k : CharClass} {s : Stage} {ss : List Stage} (h : traceOne k s = some ss) :
    Sound (one k) s ss := by
  intro c ds hs d hd
  obtain ⟨x, t, hrest, hx, rfl⟩ := mem_ways_one.1 hd
  -- a way through the other text takes the character that stands there
  have hstep : ∀ e ∈ ds, ∀ y u, e.rest = y :: u → k.has y = true →
      (some y, u) ∈ nextPlaces (one k) ds := fun e he y u hrest hy =>
    mem_nextPlaces he (mem_ways_one.2 ⟨y, u, hrest, hy, rfl⟩)
  cases s with
  | outside =>
    obtain ⟨q, hq, hplain, hmem⟩ := hs
    obtain ⟨e, he, heq⟩ := List.mem_map.1 hmem
    obtain ⟨-, herest⟩ := Prod.mk.inj heq
    simp only [Cursor.place, hrest] at hplain herest
    rw [Text.muteFrom_cons hq] at herest
    have hnext := hstep e he x _ herest hx
    obtain rfl := Option.some.inj h
    by_cases hin : closingAfter q x = some '\''
    · rcases closingAfter_eq_quote_iff.1 hin with ⟨h, -⟩ | ⟨rfl, rfl⟩
      · exact absurd h hq
      · exact ⟨.inside, by simp [hx], hin ▸ hplain.tail, _, hin ▸ hnext⟩
    · refine ⟨.outside, by split <;> simp, _, hin, hplain.tail, hnext⟩
  | inside =>
    obtain ⟨hplain, b, hmem⟩ := hs
    obtain ⟨e, he, heq⟩ := List.mem_map.1 hmem
    obtain ⟨-, herest⟩ := Prod.mk.inj heq
    simp only [Cursor.place, hrest] at hplain herest
    have htail := hplain.tail
    rw [traceOne] at h
    by_cases hquote : x = '\''
    · subst hquote
      rw [Text.muteFrom_closing] at herest
      rw [closingAfter_some, if_pos rfl] at htail
      have hnext := hstep e he _ _ herest hx
      split at h
      · obtain rfl := Option.some.inj h
        exact ⟨.outside, by simp, none, by simp, htail, hnext⟩
      · exact absurd h (by simp)
    · rw [Text.muteFrom_inside hquote] at herest
      rw [closingAfter_some, if_neg hquote] at htail
      split at h
      · next hblind =>
        obtain rfl := Option.some.inj h
        have hnext := hstep e he _ _ herest (CharClass.has_of_isBlind hblind (by decide))
        exact ⟨.inside, by simp, htail, _, hnext⟩
      · split at h
        · exact absurd h (by simp)
        · obtain rfl := Option.some.inj h
          split
          · next hmarks => exact absurd (CharClass.mem_of_isMarks hmarks hx) (hplain.head hquote)
          · exact ⟨.lost, by simp, htail⟩
  | lost =>
    have hplain : Text.PlainFrom (some '\'') (x :: t) := hrest ▸ hs
    have htail := hplain.tail
    rw [traceOne] at h
    split at h
    · exact absurd h (by simp)
    · next hk =>
      have hquote : x ≠ '\'' := by
        rintro rfl
        exact hk hx
      rw [closingAfter_some, if_neg hquote] at htail
      obtain rfl := Option.some.inj h
      split
      · next hmarks => exact absurd (CharClass.mem_of_isMarks hmarks hx) (hplain.head hquote)
      · exact ⟨.lost, by simp, htail⟩
  | alone =>
    obtain ⟨w, r, hw, hplain, hquote, hmem⟩ := hs
    obtain ⟨e, he, heq⟩ := List.mem_map.1 hmem
    obtain ⟨-, herest⟩ := Prod.mk.inj heq
    simp only [Cursor.place, hrest] at hw herest
    obtain rfl := Option.some.inj h
    cases w with
    | nil =>
      obtain ⟨rfl, rfl⟩ := List.cons.inj hw
      have hnext := hstep e he _ _ herest hx
      exact ⟨.past, by simp [hx], List.ne_nil_of_mem hnext⟩
    | cons y w =>
      obtain ⟨rfl, rfl⟩ := List.cons.inj hw
      rw [List.mem_cons, not_or] at hquote
      have hnext := hstep e he _ _ herest hx
      have hmarks : k.isMarks = false := by
        by_contra hmarks
        exact hplain x List.mem_cons_self (CharClass.mem_of_isMarks (by simpa using hmarks) hx)
      refine ⟨.alone, by simp [hmarks], w, r, rfl, fun z hz => hplain z (List.mem_cons_of_mem x hz),
        hquote.2, hnext⟩
  | past => exact absurd h (by simp [traceOne])

/-! ## Ways through many characters -/

/-- Through a class that is blind to literals the muted text is passed as the text is. -/
theorem has_muteFrom {k : CharClass} (hk : k.isBlind = true) {q : Option Char} {u : Text}
    (h : ∀ x ∈ u, k.has x = true) : ∀ x ∈ Text.muteFrom q u, k.has x = true := by
  induction u generalizing q with
  | nil => exact fun x hx => absurd hx List.not_mem_nil
  | cons c u ih =>
    intro x hx
    rw [Text.muteFrom] at hx
    rcases List.mem_cons.1 hx with rfl | hx
    · split
      · exact CharClass.has_of_isBlind hk (by decide)
      · exact h c List.mem_cons_self
    · exact ih (fun y hy => h y (List.mem_cons_of_mem c hy)) x hx

/-- A run through such a class stops at the same place of both texts. -/
theorem stop_muteFrom {k : CharClass} (hk : k.isBlind = true) {q : Option Char} {r : Text}
    (hplain : Text.PlainFrom q r) (h : ∀ x, r.head? = some x → k.has x = false) :
    ∀ x, (Text.muteFrom q r).head? = some x → k.has x = false := by
  cases r with
  | nil => exact fun x hx => absurd hx (by simp [Text.muteFrom])
  | cons c r =>
    intro x hx
    by_cases hin : q = some '\'' ∧ c ≠ '\''
    · obtain ⟨rfl, hc⟩ := hin
      have hhas := CharClass.has_of_isBlind hk (hplain.head hc)
      exact absurd (h c rfl) (by simp [hhas])
    · rw [Text.muteFrom, if_neg hin] at hx
      exact h x hx

namespace TakesMany

variable {p : Pattern} {k : CharClass} {greedy : Bool} (hp : TakesMany p k greedy)
  {c : Cursor} {ds : List Cursor} {u r : Text}

include hp

/-- There is always a way: none of the characters is asked for. -/
theorem nextPlaces_ne_nil (hds : ds ≠ []) : nextPlaces p ds ≠ [] := by
  obtain ⟨e, es, rfl⟩ := List.exists_cons_of_ne_nil hds
  have hway := (hp.mem_ways e _).2 ⟨e.rest.takeWhile k.has, e.rest.dropWhile k.has,
    List.takeWhile_append_dropWhile.symm,
    fun x hx => List.all_eq_true.1 List.all_takeWhile x hx, fun _ x hx => by
      have hnot := List.head?_dropWhile_not k.has e.rest
      rw [hx] at hnot
      simpa using hnot, rfl⟩
  exact List.ne_nil_of_mem (mem_nextPlaces List.mem_cons_self hway)

/-- A place of the other text in front of some characters of the class leads behind them. -/
theorem mem_nextPlaces {b : Option Char} (hmem : (b, u ++ r) ∈ ds.map Cursor.place)
    (hall : ∀ x ∈ u, k.has x = true)
    (hstop : greedy = true → ∀ x, r.head? = some x → k.has x = false) :
    (u.getLast?.or b, r) ∈ nextPlaces p ds := by
  obtain ⟨e, he, heq⟩ := List.mem_map.1 hmem
  obtain ⟨rfl, hrest⟩ := Prod.mk.inj heq
  exact Pattern.mem_nextPlaces he ((hp.mem_ways e _).2 ⟨u, r, hrest, hall, hstop, rfl⟩)

/-- Blind classes pass the muted text in step, from outside and from inside of a literal. -/
theorem holds_of_isBlind (hk : k.isBlind = true) {q b : Option Char}
    (hplain : Text.PlainFrom q (u ++ r)) (hb : q ≠ some '\'' → b = c.before)
    (hmem : (b, Text.muteFrom q (u ++ r)) ∈ ds.map Cursor.place)
    (hall : ∀ x ∈ u, k.has x = true)
    (hstop : greedy = true → ∀ x, r.head? = some x → k.has x = false) :
    ∃ s ∈ [Stage.outside, Stage.inside], s.Holds (along c u r).place (nextPlaces p ds) := by
  rw [Text.muteFrom_append] at hmem
  have hright := hplain.append_right
  have hnext := hp.mem_nextPlaces hmem (has_muteFrom hk hall)
    fun hg => stop_muteFrom hk hright (hstop hg)
  by_cases hin : Text.closingAt q u = some '\''
  · rw [hin] at hnext hright
    exact ⟨.inside, by simp, hright, _, hnext⟩
  · rw [Text.getLast?_muteFrom hin] at hnext
    have hbefore : u.getLast?.or b = u.getLast?.or c.before := by
      cases u with
      | nil => exact hb hin
      | cons x u => simp [List.getLast?_cons]
    rw [hbefore] at hnext
    exact ⟨.outside, by simp, _, hin, hright, hnext⟩

/-- A literal alone is passed in step up to its end. -/
theorem holds_of_alone {w t : Text} (hw : u ++ r = w ++ '\'' :: t)
    (hplain : ∀ x ∈ w, x ∉ ruleMarks) (hquote : '\'' ∉ w)
    (hmem : (c.before, w ++ ['\'']) ∈ ds.map Cursor.place)
    (hall : ∀ x ∈ u, k.has x = true)
    (hstop : greedy = true → ∀ x, r.head? = some x → k.has x = false) :
    Stage.alone.Holds (along c u r).place (nextPlaces p ds) ∨
      k.has '\'' = true ∧ nextPlaces p ds ≠ [] := by
  rcases List.append_eq_append_iff.1 hw with ⟨x, rfl, rfl⟩ | ⟨x, rfl, hx⟩
  · -- the characters are all in the literal
    rw [List.append_assoc] at hmem
    have hhead : (x ++ ['\'']).head? = (x ++ '\'' :: t).head? := by cases x <;> rfl
    have hnext := hp.mem_nextPlaces hmem hall fun hg => by
      rw [hhead]
      exact hstop hg
    rw [List.mem_append, not_or] at hquote
    exact Or.inl ⟨x, t, rfl, fun y hy => hplain y (List.mem_append_right u hy), hquote.2, hnext⟩
  · cases x with
    | nil =>
      -- they are all of the literal
      obtain rfl : r = '\'' :: t := hx.symm
      rw [List.append_nil] at hall ⊢
      have hnext := hp.mem_nextPlaces hmem hall fun hg y hy => hstop hg y hy
      exact Or.inl ⟨[], t, rfl, by simp, by simp, hnext⟩
    | cons y x =>
      -- they reach beyond the literal
      obtain ⟨rfl, -⟩ := List.cons.inj hx
      refine Or.inr ⟨hall _ (by simp), hp.nextPlaces_ne_nil ?_⟩
      rintro rfl
      exact absurd hmem List.not_mem_nil

omit hp in
/-- Without a quote in the class, a way in a literal stays in it. -/
theorem holds_lost (hk : k.has '\'' = false) (hplain : Text.PlainFrom (some '\'') (u ++ r))
    (hall : ∀ x ∈ u, k.has x = true) : Stage.lost.Holds (along c u r).place (nextPlaces p ds) := by
  have hquote : '\'' ∉ u := fun hu => by simp [hall _ hu] at hk
  have hright := hplain.append_right
  rwa [Text.closingAt_quote hquote] at hright

theorem sound {s : Stage} {ss : List Stage} (h : traceMany k s = some ss) : Sound p s ss := by
  intro c ds hs d hd
  obtain ⟨u, r, hrest, hall, hstop, rfl⟩ := (hp.mem_ways c d).1 hd
  cases s with
  | outside =>
    obtain ⟨q, hq, hplain, hmem⟩ := hs
    simp only [Cursor.place, hrest] at hplain hmem
    obtain rfl := Option.some.inj h
    by_cases hk : k.isBlind = true
    · rw [if_pos hk]
      exact hp.holds_of_isBlind hk hplain (fun _ => rfl) hmem hall hstop
    · rw [if_neg hk]
      by_cases hquote : k.has '\'' = true
      · exact ⟨.past, by simp [hquote], hp.nextPlaces_ne_nil (by rintro rfl; cases hmem)⟩
      · obtain ⟨hclosing, hmute⟩ := Text.closingAt_ne_quote hq fun hu => hquote (hall _ hu)
        rw [Text.muteFrom_append, hmute] at hmem
        have hnext := hp.mem_nextPlaces hmem hall fun hg => by
          rw [Text.head?_muteFrom hclosing]
          exact hstop hg
        exact ⟨.outside, by simp [hquote], _, hclosing, hplain.append_right, hnext⟩
  | inside =>
    obtain ⟨hplain, b, hmem⟩ := hs
    simp only [Cursor.place, hrest] at hplain hmem
    obtain rfl := Option.some.inj h
    by_cases hk : k.isBlind = true
    · rw [if_pos hk]
      exact hp.holds_of_isBlind hk hplain (fun hq => absurd rfl hq) hmem hall hstop
    · rw [if_neg hk]
      by_cases hquote : k.has '\'' = true
      · exact ⟨.past, by simp [hquote], hp.nextPlaces_ne_nil (by rintro rfl; cases hmem)⟩
      · exact ⟨.lost, by simp [hquote], holds_lost (by simpa using hquote) hplain hall⟩
  | lost =>
    have hplain : Text.PlainFrom (some '\'') (u ++ r) := hrest ▸ hs
    rw [traceMany] at h
    split at h
    · exact absurd h (by simp)
    · next hquote =>
      obtain rfl := Option.some.inj h
      exact ⟨.lost, by simp, holds_lost (by simpa using hquote) hplain hall⟩
  | alone =>
    obtain ⟨w, t, hw, hplain, hquote, hmem⟩ := hs
    simp only [Cursor.place, hrest] at hw hmem
    obtain rfl := Option.some.inj h
    rcases hp.holds_of_alone hw hplain hquote hmem hall hstop with halone | ⟨hk, hpast⟩
    · exact ⟨.alone, by split <;> simp, halone⟩
    · exact ⟨.past, by simp [hk], hpast⟩
  | past =>
    obtain rfl := Option.some.inj h
    exact ⟨.past, by simp, hp.nextPlaces_ne_nil fun hds => hs (by rw [hds]; rfl)⟩

end TakesMany

/-! ## Ways through a pattern -/

theorem mem_ways_anchor {a : Anchor} {c d : Cursor} :
    d ∈ ways (anchor a) c ↔ a.holds c.before c.rest = true ∧ d = c := by
  rw [ways]
  split
  · next h => simp [h]
  · next h => simp [h]

theorem sound_anchor (a : Anchor) {s : Stage} {ss : List Stage} (h : traceAnchor s = some ss) :
    Sound (anchor a) s ss := by
  intro c ds hs d hd
  obtain ⟨hholds, rfl⟩ := mem_ways_anchor.1 hd
  -- the other text has the same next character, so the condition holds there as well
  have hstep : ∀ t, (d.before, t) ∈ ds.map Cursor.place → t.head? = d.rest.head? →
      (d.before, t) ∈ nextPlaces (anchor a) ds := by
    intro t hmem hhead
    obtain ⟨e, he, heq⟩ := List.mem_map.1 hmem
    obtain ⟨hbefore, rfl⟩ := Prod.mk.inj heq
    rw [← heq]
    refine mem_nextPlaces he (mem_ways_anchor.2 ⟨?_, rfl⟩)
    rw [hbefore, a.holds_congr _ hhead, hholds]
  cases s with
  | outside =>
    obtain ⟨q, hq, hplain, hmem⟩ := hs
    obtain rfl := Option.some.inj h
    exact ⟨.outside, by simp, q, hq, hplain, hstep _ hmem (Text.head?_muteFrom hq _)⟩
  | inside =>
    obtain rfl := Option.some.inj h
    exact ⟨.lost, by simp, hs.1⟩
  | lost =>
    obtain rfl := Option.some.inj h
    exact ⟨.lost, by simp, hs⟩
  | alone =>
    obtain ⟨w, t, hw, hplain, hquote, hmem⟩ := hs
    obtain rfl := Option.some.inj h
    refine ⟨.alone, by simp, w, t, hw, hplain, hquote, hstep _ hmem ?_⟩
    have hrest : d.rest = w ++ '\'' :: t := hw
    rw [hrest]
    cases w <;> rfl
  | past => exact absurd h (by simp [traceAnchor])

theorem Sound.mono {p : Pattern} {s : Stage} {ss rs : List Stage} (h : Sound p s ss)
    (hsub : ss ⊆ rs) : Sound p s rs := by
  intro c ds hs d hd
  obtain ⟨s', hs', hholds⟩ := h c ds hs d hd
  exact ⟨s', hsub hs', hholds⟩

theorem traceAll_some {next : Stage → Option (List Stage)} {ss rs : List Stage}
    (h : traceAll next ss = some rs) : ∀ s ∈ ss, ∃ xs, next s = some xs ∧ xs ⊆ rs := by
  induction ss generalizing rs with
  | nil => exact fun s hs => absurd hs List.not_mem_nil
  | cons s ss ih =>
    rw [traceAll] at h
    split at h
    · next xs ys hxs hys =>
      obtain rfl := Option.some.inj h
      intro s' hs'
      rcases List.mem_cons.1 hs' with rfl | hs'
      · exact ⟨xs, hxs, fun x hx => List.mem_union_iff.2 (Or.inl hx)⟩
      · obtain ⟨zs, hzs, hsub⟩ := ih hys s' hs'
        exact ⟨zs, hzs, fun x hx => List.mem_union_iff.2 (Or.inr (hsub hx))⟩
    · exact absurd h (by simp)

theorem Sound.seq {p q : Pattern} {s : Stage} {ss rs : List Stage} (hp : Sound p s ss)
    (hq : ∀ s' ∈ ss, Sound q s' rs) : Sound (.seq p q) s rs := by
  intro c ds hs d hd
  obtain ⟨e, he, hd⟩ := List.mem_flatMap.1 hd
  obtain ⟨s', hs', hholds⟩ := hp c ds hs e he
  obtain ⟨s'', hs'', hholds'⟩ := hq s' hs' e (ds.flatMap (ways p)) hholds d hd
  have hnext : nextPlaces (.seq p q) ds = nextPlaces q (ds.flatMap (ways p)) := by
    rw [nextPlaces, nextPlaces, List.flatMap_assoc]
    rfl
  exact ⟨s'', hs'', hnext ▸ hholds'⟩

theorem Sound.alt {p q : Pattern} {s : Stage} {ss : List Stage} (hp : Sound p s ss)
    (hq : Sound q s ss) : Sound (.alt p q) s ss := by
  -- the ways of either pattern are ways of both
  have hsub : ∀ r ∈ [p, q], ∀ ds, nextPlaces r ds ⊆ nextPlaces (.alt p q) ds := by
    intro r hr ds x hx
    obtain ⟨e, he, rfl⟩ := List.mem_map.1 hx
    obtain ⟨d, hd, he⟩ := List.mem_flatMap.1 he
    refine mem_nextPlaces hd ?_
    rw [ways, List.mem_append]
    rcases List.mem_pair.1 hr with rfl | rfl
    · exact Or.inl he
    · exact Or.inr he
  intro c ds hs d hd
  rcases List.mem_append.1 hd with hd | hd
  · obtain ⟨s', hs', hholds⟩ := hp c ds hs d hd
    exact ⟨s', hs', hholds.mono (hsub p (by simp) ds)⟩
  · obtain ⟨s', hs', hholds⟩ := hq c ds hs d hd
    exact ⟨s', hs', hholds.mono (hsub q (by simp) ds)⟩

theorem Sound.group {p : Pattern} {s : Stage} {ss : List Stage} (h : Sound p s ss) (n : Nat) :
    Sound (.group n p) s ss := by
  intro c ds hs d hd
  obtain ⟨e, he, rfl⟩ := List.mem_map.1 hd
  obtain ⟨s', hs', hholds⟩ := h c ds hs e he
  refine ⟨s', hs', hholds.mono fun x hx => ?_⟩
  obtain ⟨a, ha, rfl⟩ := List.mem_map.1 hx
  obtain ⟨b, hb, ha⟩ := List.mem_flatMap.1 ha
  have hcapture : b.capture n a ∈ ways (.group n p) b := List.mem_map_of_mem ha
  have hplace : (b.capture n a).place = a.place := rfl
  exact hplace ▸ mem_nextPlaces hb hcapture

/-- **What a trace says is true.** Every way that begins at a stage is, behind the pattern, at
one of the stages of the trace. -/
theorem trace_sound {p : Pattern} {s : Stage} {ss : List Stage} (h : trace p s = some ss) :
    Sound p s ss := by
  induction p generalizing s ss with
  | empty =>
    obtain rfl := Option.some.inj h
    intro c ds hs d hd
    obtain rfl := List.mem_singleton.1 hd
    refine ⟨s, List.mem_singleton_self s, ?_⟩
    have hnext : nextPlaces empty ds = ds.map Cursor.place := by
      rw [nextPlaces, show ways empty = fun c => [c] from funext fun _ => rfl,
        List.flatMap_singleton']
    rwa [hnext]
  | one k => exact sound_one h
  | run k => exact (takesMany_run k).sound h
  | anchor a => exact sound_anchor a h
  | seq p q ihp ihq =>
    rw [trace] at h
    split at h
    · next ss' hp =>
      refine (ihp hp).seq fun s' hs' => ?_
      obtain ⟨xs, hxs, hsub⟩ := traceAll_some h s' hs'
      exact (ihq hxs).mono hsub
    · exact absurd h (by simp)
  | alt p q ihp ihq =>
    rw [trace] at h
    split at h
    · next xs ys hxs hys =>
      obtain rfl := Option.some.inj h
      exact ((ihp hxs).mono fun x hx => List.mem_union_iff.2 (Or.inl hx)).alt
        ((ihq hys).mono fun x hx => List.mem_union_iff.2 (Or.inr hx))
    · exact absurd h (by simp)
  | star p =>
    cases p with
    | one k => exact (takesMany_star k).sound h
    | _ => exact absurd h (by simp [trace])
  | lazyStar p =>
    cases p with
    | one k => exact (takesMany_lazyStar k).sound h
    | _ => exact absurd h (by simp [trace])
  | commit p => exact absurd h (by simp [trace])
  | group n p ih => exact (ih h).group n

end Pattern

end SqlScribe
