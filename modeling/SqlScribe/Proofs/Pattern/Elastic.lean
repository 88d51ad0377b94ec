import SqlScribe.Proofs.Pattern.Hits
import SqlScribe.Proofs.Pattern.Walk
import SqlScribe.Proofs.Text.Squeeze

/-!
# Searching a text whatever its layout

An elastic pattern takes a run of blanks as a whole, so it finds the same in a text and in the text
with every run of blanks written as one space. A search from a place in a text and the one from the
same place in the squeezed text go side by side, part by part of the pattern; what they are followed
by is left open. Main statements:

* `first_rel`: whether a search leads anywhere does not depend on what was captured before;
* `Elastic.append`, `Elastic.alt`, `Elastic.group`: elastic patterns are put together;
* `Elastic.run`, `Elastic.argument`, `Elastic.lazyArgument`: the parts that may take blanks.
-/

namespace SqlScribe

open Text

/-- The captured text with every run of blanks as one space. -/
def Capture.squeezed (g : Capture) : Capture := ⟨g.number, squeeze g.start, squeeze g.stop⟩

/-- No run of blanks goes on behind the captured text. -/
def Capture.Whole (g : Capture) : Prop := ∃ u, g.start = u ++ g.stop ∧ RunEnds u.getLast? g.stop

theorem Capture.Whole.text_squeezed {g : Capture} (h : g.Whole) :
    g.squeezed.text = squeeze g.text := by
  obtain ⟨u, hstart, hruns⟩ := h
  have htext : g.text = u := by
    rw [Capture.text, hstart]
    exact Pattern.text_of_append rfl
  rw [htext, Capture.text, squeezed]
  exact Pattern.text_of_append (by rw [hstart, squeeze_append_of_runEnds hruns])

namespace Cursor

/-- The same place in the squeezed text. -/
def squeezed (c : Cursor) : Cursor :=
  ⟨c.before.map asSpace, squeeze c.rest, c.captures.map Capture.squeezed⟩

/-- The place does not lie within a run of blanks, and no captured text ends within one. -/
structure Fit (c : Cursor) : Prop where
  runEnds : RunEnds c.before c.rest
  whole : ∀ g ∈ c.captures, g.Whole

/-- The place `d` lies behind `c` in the same text. -/
def Reaches (c d : Cursor) : Prop := ∃ u, c.rest = u ++ d.rest ∧ d.before = u.getLast?.or c.before

variable {c d e : Cursor}

theorem Reaches.refl (c : Cursor) : c.Reaches c := ⟨[], rfl, rfl⟩

theorem Reaches.trans (h : c.Reaches d) (h' : d.Reaches e) : c.Reaches e := by
  obtain ⟨u, hu, hb⟩ := h
  obtain ⟨v, hv, hb'⟩ := h'
  exact ⟨u ++ v, by rw [hu, hv, List.append_assoc],
    by rw [hb', hb, List.getLast?_append, Option.or_assoc]⟩

/-- Something captured up to a fit place is whole. -/
theorem Fit.capture (hd : d.Fit) (h : c.Reaches d) (n : Nat) : (c.capture n d).Fit := by
  refine ⟨hd.runEnds, fun g hg => ?_⟩
  rcases List.mem_cons.1 hg with rfl | hg
  · obtain ⟨u, hu, hb⟩ := h
    refine ⟨u, hu, fun hblank => hd.runEnds ?_⟩
    rw [hb]
    cases hlast : u.getLast? with
    | none => exact absurd hblank (by simp [hlast])
    | some x => simpa [hlast] using hblank
  · exact hd.whole g hg

end Cursor

namespace CharClass

/-- The class has all blanks or none. -/
def Even (k : CharClass) : Prop := ∀ x, isBlank x = true → k.has x = k.has ' '

/-- The class has all blanks. -/
def Ample (k : CharClass) : Prop := ∀ x, isBlank x = true → k.has x = true

variable {k : CharClass}

theorem Ample.even (h : k.Ample) : k.Even := fun x hx => (h x hx).trans (h ' ' (by decide)).symm

theorem even_of_no_blank (h : ∀ x, isBlank x = true → k.has x = false) : k.Even :=
  fun x hx => (h x hx).trans (h ' ' (by decide)).symm

/-- A character that is not of the class is not a blank. -/
theorem Ample.not_blank (h : k.Ample) {c : Char} (hc : k.has c = false) : isBlank c = false := by
  by_contra hne
  exact absurd (h c (by simpa using hne)) (by simp [hc])

theorem ample_blank : CharClass.Ample .blank := fun _ hx => hx

theorem ample_other {cs : List Char} (h : ∀ c ∈ cs, isBlank c = false) :
    CharClass.Ample (.other (.among cs)) := by
  intro x hx
  have hmem : x ∉ cs := fun hmem => absurd (h x hmem) (by simp [hx])
  simp [has, hmem]

theorem Even.has_asSpace (h : k.Even) (x : Char) : k.has (asSpace x) = k.has x := by
  cases hx : isBlank x with
  | true => rw [asSpace_of_blank hx, h x hx]
  | false => rw [asSpace_of_not_blank hx]

/-- What a run takes does not begin with a blank if the text does not. -/
theorem head?_takeWhile {f : Char → Bool} {t : Text} (h : t.head?.any isBlank = false) :
    (t.takeWhile f).head?.any isBlank = false := by
  cases t with
  | nil => rfl
  | cons x t =>
    rw [List.takeWhile_cons]
    split
    · exact h
    · rfl

/-- A run is squeezed by itself, and so is the text behind it. -/
theorem Even.squeeze_run (h : k.Even) (t : Text) :
    (squeeze t).takeWhile k.has = squeeze (t.takeWhile k.has) ∧
      (squeeze t).dropWhile k.has = squeeze (t.dropWhile k.has) := by
  induction laidOut t with
  | nil => exact ⟨rfl, rfl⟩
  | @char x t hx ht ih =>
    rw [squeeze_cons_of_not_blank hx, List.takeWhile_cons, List.takeWhile_cons, List.dropWhile_cons,
      List.dropWhile_cons]
    split
    · exact ⟨by rw [squeeze_cons_of_not_blank hx, ih.1], ih.2⟩
    · exact ⟨rfl, (squeeze_cons_of_not_blank hx t).symm⟩
  | @run g t hne hg hhead ht ih =>
    rw [Text.squeeze_run hne hg hhead, List.takeWhile_cons, List.dropWhile_cons]
    split
    · next hspace =>
      have hall : ∀ x ∈ g, k.has x = true := fun x hx => (h x (hg x hx)).trans hspace
      rw [List.takeWhile_append_of_pos hall, List.dropWhile_append_of_pos hall,
        Text.squeeze_run hne hg (head?_takeWhile hhead), ih.1, ih.2]
      exact ⟨rfl, rfl⟩
    · next hspace =>
      obtain ⟨x, g, rfl⟩ := List.exists_cons_of_ne_nil hne
      have hx : ¬ k.has x = true := by rwa [h x (hg x List.mem_cons_self)]
      rw [List.cons_append, List.takeWhile_cons_of_neg hx, List.dropWhile_cons_of_neg hx,
        ← List.cons_append, Text.squeeze_run hne hg hhead]
      exact ⟨rfl, rfl⟩

end CharClass

namespace Pattern

open Cursor

variable {p q : Pattern} {k : CharClass} {K K' : Continuation}

/-! ## What was captured does not matter -/

theorem rel_orElse {R : Cursor → Cursor → Prop} {a a' b b' : Option Cursor} (ha : Option.Rel R a b)
    (hb : Option.Rel R a' b') : Option.Rel R (a <|> a') (b <|> b') := by
  cases ha with
  | some h => exact .some h
  | none => exact hb

theorem rel_bind {R S : Cursor → Cursor → Prop} {a b : Option Cursor} (h : Option.Rel S a b)
    (hK : ∀ d e, S d e → Option.Rel R (K d) (K' e)) : Option.Rel R (a.bind K) (b.bind K') := by
  cases h with
  | some hde => exact hK _ _ hde
  | none => exact .none

theorem eq_none_of_rel {R : Cursor → Cursor → Prop} {b : Option Cursor} (h : Option.Rel R none b) :
    b = none := by
  cases h
  rfl

/-- Searches from the same place, whatever was captured in front of it, go side by side. -/
theorem first_rel (p : Pattern) {R : Cursor → Cursor → Prop} {K K' : Continuation}
    (hK : ∀ d e : Cursor, d.place = e.place → Option.Rel R (K d) (K' e)) {c c' : Cursor}
    (h : c.place = c'.place) : Option.Rel R (first p c K) (first p c' K') := by
  induction p generalizing R K K' c c' with
  | empty => exact hK c c' h
  | one k =>
    obtain ⟨b, t, cs⟩ := c
    obtain ⟨b', t', cs'⟩ := c'
    obtain ⟨rfl, rfl⟩ := Prod.mk.inj h
    cases t with
    | nil => exact .none
    | cons x t =>
      cases hx : k.has x with
      | true =>
        rw [first_one_of_has hx, first_one_of_has hx]
        exact hK _ _ rfl
      | false =>
        have hne : ∀ y, (x :: t).head? = some y → k.has y = false :=
          fun y hy => Option.some.inj hy ▸ hx
        rw [first_one_of_not_has hne, first_one_of_not_has hne]
        exact .none
  | run k =>
    obtain ⟨hb, ht⟩ := Prod.mk.inj h
    rw [first_run, first_run, hb, ht]
    exact hK _ _ rfl
  | anchor a =>
    obtain ⟨hb, ht⟩ := Prod.mk.inj h
    rw [first, first, hb, ht]
    split
    · exact hK c c' h
    · exact .none
  | seq p q ihp ihq => exact ihp (fun d e hde => ihq hK hde) h
  | alt p q ihp ihq => exact rel_orElse (ihp hK h) (ihq hK h)
  | star p ih =>
    have hsteps : ∀ n (d e : Cursor), d.place = e.place →
        Option.Rel R (tryLongest (first p) n d K) (tryLongest (first p) n e K') := by
      intro n
      induction n with
      | zero => exact hK
      | succ n ihn => exact fun d e hde => rel_orElse (ih ihn hde) (hK d e hde)
    have hlength : c.rest.length = c'.rest.length := congrArg List.length (Prod.mk.inj h).2
    rw [first, first, hlength]
    exact hsteps _ c c' h
  | lazyStar p ih =>
    have hsteps : ∀ n (d e : Cursor), d.place = e.place →
        Option.Rel R (tryShortest (first p) n d K) (tryShortest (first p) n e K') := by
      intro n
      induction n with
      | zero => exact hK
      | succ n ihn => exact fun d e hde => rel_orElse (hK d e hde) (ih ihn hde)
    have hlength : c.rest.length = c'.rest.length := congrArg List.length (Prod.mk.inj h).2
    rw [first, first, hlength]
    exact hsteps _ c c' h
  | commit p ih =>
    have hone : Option.Rel (fun d e => d.place = e.place) (first p c some) (first p c' some) :=
      ih (fun d e hde => .some hde) h
    exact rel_bind hone hK
  | group n p ih => exact ih (fun d e hde => hK (c.capture n d) (c'.capture n e) hde) h

/-- Whether `K` leads anywhere from a place does not depend on what was captured before. -/
def Forgetful (K : Continuation) : Prop :=
  ∀ d e : Cursor, d.place = e.place → Option.Rel (fun _ _ => True) (K d) (K e)

theorem Forgetful.first (h : Forgetful K) (p : Pattern) : Forgetful fun d => first p d K :=
  fun _ _ hde => first_rel p h hde

theorem forgetful_some : Forgetful some := fun _ _ _ => .some trivial

theorem Forgetful.eq_none (h : Forgetful K) {d e : Cursor} (hd : K d = none)
    (hde : d.place = e.place) :
    K e = none := by
  have hrel := h d e hde
  rw [hd] at hrel
  exact eq_none_of_rel hrel

/-! ## Elastic patterns -/

/-- The pattern goes from any place in a text, and from the same place in the squeezed text, to the
same places, and none of them lies within a run of blanks. -/
def Elastic (p : Pattern) : Prop :=
  ∀ (R : Cursor → Cursor → Prop) (c : Cursor) (K K' : Continuation),
    c.Fit → Forgetful K → Forgetful K' →
    (∀ d : Cursor, d.Fit → c.Reaches d → Option.Rel R (K d) (K' d.squeezed)) →
      Option.Rel R (first p c K) (first p c.squeezed K')

namespace Elastic

theorem empty : Elastic .empty := fun _ c _ _ hc _ _ h => h c hc (.refl c)

theorem append (hp : Elastic p) (hq : Elastic q) : Elastic (p ++ q) :=
  fun R c _ _ hc hK hK' h => hp R c _ _ hc (hK.first q) (hK'.first q) fun d hd hcd =>
    hq R d _ _ hd hK hK' fun e he hde => h e he (hcd.trans hde)

/-- The parts of a pattern may be put together in any order. -/
theorem append_assoc {r : Pattern} (h : Elastic (p ++ (q ++ r))) : Elastic (p ++ q ++ r) := h

theorem alt (hp : Elastic p) (hq : Elastic q) : Elastic (.alt p q) :=
  fun R c K K' hc hK hK' h => rel_orElse (hp R c K K' hc hK hK' h) (hq R c K K' hc hK hK' h)

theorem opt (hp : Elastic p) : Elastic (opt p) := hp.alt empty

theorem group (hp : Elastic p) (n : Nat) : Elastic (.group n p) :=
  fun R c _ _ hc hK hK' h => hp R c _ _ hc
    (fun d e hde => hK (c.capture n d) (c.capture n e) hde)
    (fun d e hde => hK' (c.squeezed.capture n d) (c.squeezed.capture n e) hde)
    fun d hd hcd => h (c.capture n d) (hd.capture hcd n) hcd

/-! ### Classes of characters -/

theorem isWordChar_asSpace (c : Char) : isWordChar (asSpace c) = isWordChar c := by
  cases h : isBlank c with
  | true =>
    rw [asSpace_of_blank h, isWordChar_of_isBlank h]
    decide
  | false => rw [asSpace_of_not_blank h]

/-- A condition on words holds in the squeezed text where it holds in the text. -/
theorem edge : Elastic edge := by
  intro R c K K' hc _ _ h
  have hholds : Anchor.holds c.squeezed.before c.squeezed.rest .wordEdge =
      Anchor.holds c.before c.rest .wordEdge := by
    have hword : ∀ b : Option Char, (b.map asSpace).any isWordChar = b.any isWordChar := by
      intro b
      cases b <;> simp [isWordChar_asSpace]
    rw [Anchor.holds, Anchor.holds, squeezed, hword, head?_squeeze, hword]
  rw [Pattern.edge, first, first, hholds]
  split
  · exact h c hc (.refl c)
  · exact .none

theorem textStart : Elastic (.anchor .textStart) := by
  intro R c K K' hc _ _ h
  have hholds : Anchor.holds c.squeezed.before c.squeezed.rest .textStart =
      Anchor.holds c.before c.rest .textStart := by
    rw [Anchor.holds, Anchor.holds, squeezed, Option.isNone_map]
  rw [first, first, hholds]
  split
  · exact h c hc (.refl c)
  · exact .none

/-- A character that is not blank is taken in both texts. -/
theorem one (hk : ∀ x, isBlank x = true → k.has x = false) : Elastic (.one k) := by
  intro R c K K' hc _ _ h
  obtain ⟨b, t, cs⟩ := c
  have hfail : ∀ y, t.head? = some y → k.has y = false → Option.Rel R (first (.one k) ⟨b, t, cs⟩ K)
      (first (.one k) (squeezed ⟨b, t, cs⟩) K') := by
    intro y hy hky
    have hspace : k.has (asSpace y) = false := by
      cases hblank : isBlank y with
      | true => exact asSpace_of_blank hblank ▸ hk ' ' (by decide)
      | false => rwa [asSpace_of_not_blank hblank]
    rw [squeezed, first_one_of_not_has fun z hz => Option.some.inj (hy.symm.trans hz) ▸ hky,
      first_one_of_not_has fun z hz => ?_]
    · exact .none
    · rw [head?_squeeze, hy] at hz
      exact Option.some.inj hz ▸ hspace
  cases t with
  | nil => exact .none
  | cons x t =>
    cases hx : k.has x with
    | false => exact hfail x rfl hx
    | true =>
      have hblank : isBlank x = false := by
        by_contra hne
        exact absurd (hk x (by simpa using hne)) (by simp [hx])
      have hfit : Cursor.Fit ⟨some x, t, cs⟩ :=
        ⟨runEnds_of_not_blank (by simpa using hblank), hc.whole⟩
      rw [squeezed, squeeze_cons_of_not_blank hblank, first_one_of_has hx, first_one_of_has hx]
      have hnext := h _ hfit ⟨[x], rfl, rfl⟩
      rwa [squeezed, Option.map_some, asSpace_of_not_blank hblank] at hnext

/-- A text without blanks is there in both texts. -/
theorem literal {w : Text} (hw : ∀ x ∈ w, isBlank x = false) : Elastic (literal w) := by
  induction w with
  | nil => exact empty
  | cons x w ih =>
    obtain ⟨hx, hw⟩ := List.forall_mem_cons.1 hw
    refine append (p := .one (.among [x])) (one fun y hy => ?_) (ih hw)
    have hne : y ≠ x := by
      rintro rfl
      exact absurd hx (by simp [hy])
    simpa [CharClass.has] using hne

theorem isBlank_simpleFold (x : Char) : isBlank (simpleFold x) = isBlank x := by
  unfold simpleFold
  split
  · next h => rw [eq_of_beq h]; decide
  · split
    · next h => rw [eq_of_beq h]; decide
    · rw [← isBlank_toUpper, toUpper_toLower, isBlank_toUpper]

/-- A word is there in both texts. -/
theorem letters {w : Text} (hw : ∀ x ∈ w, isBlank x = false) : Elastic (letters w) := by
  induction w with
  | nil => exact empty
  | cons x w ih =>
    obtain ⟨hx, hw⟩ := List.forall_mem_cons.1 hw
    refine append (p := .one (.letter x)) (one fun y hy => ?_) (ih hw)
    refine beq_eq_false_iff_ne.2 fun heq => ?_
    have hblank := congrArg isBlank heq
    rw [isBlank_simpleFold, isBlank_simpleFold, hx, hy] at hblank
    exact Bool.noConfusion hblank

theorem oneOf {ps : List Pattern} (h : ∀ p ∈ ps, Elastic p) : Elastic (oneOf ps) := by
  induction ps with
  | nil => exact one fun _ _ => rfl
  | cons p ps ih =>
    obtain ⟨hp, hps⟩ := List.forall_mem_cons.1 h
    cases ps with
    | nil => exact hp
    | cons q ps => exact hp.alt (ih hps)

theorem oneOf_letters (ws : List Text) (hws : ∀ w ∈ ws, ∀ x ∈ w, isBlank x = false) :
    Elastic (Pattern.oneOf (ws.map Pattern.letters)) :=
  oneOf (List.forall_mem_map.2 fun w hw => letters (hws w hw))

/-! ### Runs -/

theorem fit_run (hk : k.Even) {c : Cursor} (hc : c.Fit) : (c.run k).Fit ∧ c.Reaches (c.run k) ∧
    (c.run k).squeezed = c.squeezed.run k := by
  obtain ⟨b, t, cs⟩ := c
  obtain ⟨htake, hdrop⟩ := hk.squeeze_run t
  rw [Cursor.run, Cursor.run, spanRun_eq, spanRun_eq, squeezed, squeezed]
  refine ⟨⟨fun hblank => ?_, hc.whole⟩, ⟨t.takeWhile k.has, ?_, rfl⟩, ?_⟩
  · cases hlast : (t.takeWhile k.has).getLast? with
    | none =>
      -- nothing is taken
      have hnil : t.takeWhile k.has = [] := List.getLast?_eq_none_iff.1 hlast
      have hself : t.dropWhile k.has = t := by
        conv_rhs =>
          rw [← List.takeWhile_append_dropWhile (p := k.has) (l := t), hnil, List.nil_append]
      rw [hlast, Option.none_or] at hblank
      rw [hself]
      exact hc.runEnds hblank
    | some x =>
      rw [hlast, Option.some_or] at hblank
      have hx : k.has x = true := List.all_eq_true.1 List.all_takeWhile x
        (List.mem_of_getLast? hlast)
      cases hd : (t.dropWhile k.has).head? with
      | none => rfl
      | some y =>
        by_contra hy
        have hyx : k.has y = k.has x := (hk y (by simpa using hy)).trans (hk x hblank).symm
        rw [not_of_head?_dropWhile hd, hx] at hyx
        exact Bool.noConfusion hyx
  · exact (List.takeWhile_append_dropWhile (p := k.has) (l := t)).symm
  · rw [htake, hdrop, getLast?_squeeze]
    cases (t.takeWhile k.has).getLast? <;> rfl

/-- A run takes blanks in both texts or in none. -/
theorem run (hk : k.Even) : Elastic (.run k) := by
  intro R c K K' hc _ _ h
  obtain ⟨hfit, hreach, hsqueezed⟩ := fit_run hk hc
  rw [first, first, ← hsqueezed]
  exact h _ hfit hreach

theorem run1 (hk : k.Even) : Elastic (run1 k) := by
  have hfirst : ∀ (c : Cursor) (K : Continuation), first (Pattern.run1 k) c K =
      if c.rest.head?.any k.has then first (.run k) c K else none := by
    rintro ⟨b, t, cs⟩ K
    cases t with
    | nil => rfl
    | cons x t =>
      rw [Pattern.run1, first_append]
      cases hx : k.has x with
      | true =>
        rw [first_one_of_has hx, first_run, first_run]
        simp [hx, Text.getLast?_cons_or]
      | false =>
        rw [first_one_of_not_has fun y hy => Option.some.inj hy ▸ hx]
        simp [hx]
  intro R c K K' hc hK hK' h
  have hhead : c.squeezed.rest.head?.any k.has = c.rest.head?.any k.has := by
    rw [squeezed, head?_squeeze]
    cases c.rest.head? with
    | none => rfl
    | some x => exact hk.has_asSpace x
  rw [hfirst, hfirst, hhead]
  split
  · exact run hk R c K K' hc hK hK' h
  · exact .none

theorem blanks : Elastic blanks := run CharClass.ample_blank.even

theorem blanks1 : Elastic blanks1 := run1 CharClass.ample_blank.even

theorem word {w : Text} (hw : ∀ x ∈ w, isBlank x = false) : Elastic (word w) :=
  (edge.append (letters hw)).append edge

theorem wordOf {ws : List Text} (hws : ∀ w ∈ ws, ∀ x ∈ w, isBlank x = false) :
    Elastic (wordOf ws) :=
  (edge.append (oneOf_letters ws hws)).append edge

theorem opening {name : Text} (hname : ∀ x ∈ name, isBlank x = false) : Elastic (opening name) :=
  ((edge.append (letters hname)).append blanks).append (literal (w := ['(']) (by decide))

end Elastic

/-! ## Arguments

What is captured of an argument is found by trying shorter captures before longer ones, and most of
the tries end within a run of blanks. They fail in front of the sign behind the argument, or they
lead to the place behind this sign, as the first does that leads there. -/

section Arguments

variable {b : Option Char} {r s t u v : Text} {cs : List Capture} {n : Nat} {stop : Char}

/-- Without the sign that has to follow, or without a way on from behind it, there is no way
through. -/
theorem first_stop_eq_none (hspells : ∀ u, p.Spells u → ∀ y ∈ u, k.has y = true)
    (hstop : k.has stop = false) (hv : ∀ y ∈ v, k.has y = true)
    (hs : ∀ y, s.head? = some y → k.has y = false)
    (hK : ∀ r, s = stop :: r → p.Spells v → ∀ cs, K ⟨some stop, r, cs⟩ = none) :
    first (p ++ literal [stop]) ⟨b, v ++ s, cs⟩ K = none := by
  rw [first_append, first_eq, List.findSome?_eq_none_iff]
  intro d hd
  obtain ⟨⟨u, hu, hspelled⟩, -⟩ := leads_of_mem_ways hd
  obtain ⟨b', t, cs'⟩ := d
  cases t with
  | nil => rfl
  | cons y r =>
    by_cases hy : y = stop
    · subst hy
      have hhead : ∀ z, (y :: r).head? = some z → k.has z = false :=
        fun z hz => Option.some.inj hz ▸ hstop
      have hall := hspells u hspelled
      -- both texts end where the class ends
      have htake : v = u := by
        rw [← takeWhile_append_of_head hv hs, ← takeWhile_append_of_head hall hhead]
        exact congrArg _ hu
      have hdrop : s = y :: r := by
        rw [← dropWhile_append_of_head hv hs, ← dropWhile_append_of_head hall hhead]
        exact congrArg _ hu
      exact (first_literal [y] r).trans (hK r hdrop (htake ▸ hspelled) cs')
    · exact first_literal_of_ne fun h => hy (Option.some.inj h)

/-- The last of several blanks is captured if nothing else is there. -/
theorem first_argument_blank {g : Text} {x : Char} (hg : ∀ y ∈ g, isBlank y = true)
    (hx : isBlank x = true) (hstop : k.has stop = false) (hblank : isBlank stop = false) :
    first (argument n k ++ literal [stop]) ⟨b, g ++ x :: stop :: r, cs⟩ K =
      K ⟨some stop, r, ⟨n, x :: stop :: r, stop :: r⟩ :: cs⟩ := by
  -- what is done where no more blanks are taken
  let L : Continuation := fun d => first (group n (one .blank)) d fun d =>
    first (literal [stop]) d K
  have hend : ∀ b, L ⟨b, stop :: r, cs⟩ = none := fun b =>
    first_one_of_not_has fun y hy => Option.some.inj hy ▸ hblank
  have hlast : ∀ b, L ⟨b, x :: stop :: r, cs⟩
      = K ⟨some stop, r, ⟨n, x :: stop :: r, stop :: r⟩ :: cs⟩ :=
    fun b => (first_one_of_has (k := .blank) hx).trans (first_literal [stop] r)
  have hmany : ∀ m b, (g ++ [x]).length ≤ m →
      tryLongest (first (one .blank)) m ⟨b, g ++ x :: stop :: r, cs⟩ L =
        L ⟨none, x :: stop :: r, cs⟩ := by
    induction g with
    | nil =>
      intro m b hm
      obtain ⟨m, rfl⟩ := Nat.exists_eq_add_one_of_ne_zero (Nat.one_le_iff_ne_zero.1 hm)
      have hstep : tryLongest (first (one .blank)) m ⟨some x, stop :: r, cs⟩ L = none := by
        cases m with
        | zero => exact hend _
        | succ m =>
          rw [tryLongest, first_one_of_not_has fun y hy => Option.some.inj hy ▸ hblank, hend]
          rfl
      rw [List.nil_append, tryLongest, first_one_of_has (k := .blank) hx, hstep, hlast, hlast]
      rfl
    | cons y g ih =>
      intro m b hm
      obtain ⟨hy, hg⟩ := List.forall_mem_cons.1 hg
      obtain ⟨m, rfl⟩ := Nat.exists_eq_add_one_of_ne_zero (n := m) (by
        rw [List.cons_append, List.length_cons] at hm
        omega)
      have hback : L ⟨b, y :: (g ++ x :: stop :: r), cs⟩ = none := by
        refine (first_one_of_has (k := .blank) hy).trans (first_literal_of_ne ?_)
        have hne : ∀ z, isBlank z = true → z ≠ stop := by
          rintro z hz rfl
          exact absurd hz (by simp [hblank])
        cases g with
        | nil => exact fun h => hne x hx (Option.some.inj h)
        | cons z g => exact fun h => hne z (hg z List.mem_cons_self) (Option.some.inj h)
      rw [List.cons_append, tryLongest, first_one_of_has (k := .blank) hy,
        ih hg m (some y) (Nat.le_of_succ_le_succ hm), hback]
      cases L ⟨none, x :: stop :: r, cs⟩ <;> rfl
  have hfew : first (blanks ++ group n (lazy1 k) ++ blanks) ⟨b, g ++ x :: stop :: r, cs⟩
      (fun d => first (literal [stop]) d K) = none := by
    have hall : ∀ y ∈ g ++ [x], isBlank y = true := by
      intro y hy
      rcases List.mem_append.1 hy with hy | hy
      · exact hg y hy
      · exact List.mem_singleton.1 hy ▸ hx
    have hsplit : g ++ x :: stop :: r = (g ++ [x]) ++ stop :: r := by simp
    have hnext : ∀ y, (stop :: r).head? = some y → isBlank y = false :=
      fun y hy => Option.some.inj hy ▸ hblank
    rw [hsplit, first_append, first_append, first_blanks_append hall hnext]
    exact first_one_of_not_has fun y hy => Option.some.inj hy ▸ hstop
  have halt : first (argument n k ++ literal [stop]) ⟨b, g ++ x :: stop :: r, cs⟩ K =
      ((none : Option Cursor) <|> tryLongest (first (one .blank)) (g ++ x :: stop :: r).length
        ⟨b, g ++ x :: stop :: r, cs⟩ L) := by
    rw [← hfew]
    rfl
  rw [halt, hmany _ b (by simp), hlast]
  rfl

/-- Up to the sign behind it `a` is captured of the text `v`, which ends in `e`, wherever the search
goes on from. -/
def CapturedUpTo (p : Pattern) (stop : Char) (n : Nat) (v a e : Text) : Prop :=
  ∀ b r cs K, Forgetful K → first (p ++ literal [stop]) ⟨b, v ++ stop :: r, cs⟩ K =
    K ⟨some stop, r, ⟨n, a ++ (e ++ stop :: r), e ++ stop :: r⟩ :: cs⟩

/-- It is enough that the search succeeds whenever it does from behind the sign. -/
theorem capturedUpTo_of_some {a e : Text} (hspells : ∀ u, p.Spells u → ∀ y ∈ u, k.has y = true)
    (hstop : k.has stop = false) (hv : ∀ y ∈ v, k.has y = true)
    (h : ∀ b r cs K d, K ⟨some stop, r, ⟨n, a ++ (e ++ stop :: r), e ++ stop :: r⟩ :: cs⟩ = some d →
      first (p ++ literal [stop]) ⟨b, v ++ stop :: r, cs⟩ K = some d) :
    CapturedUpTo p stop n v a e := by
  intro b r cs K hK
  cases hend : K ⟨some stop, r, ⟨n, a ++ (e ++ stop :: r), e ++ stop :: r⟩ :: cs⟩ with
  | some d => exact h b r cs K d hend
  | none =>
    refine first_stop_eq_none hspells hstop hv (fun y hy => Option.some.inj hy ▸ hstop)
      fun r' hr _ cs' => ?_
    obtain rfl := (List.cons.inj hr).2
    exact hK.eq_none hend rfl

/-- The same is captured of a text and of the squeezed text, or neither is taken by the pattern. -/
def CapturesSqueezed (p : Pattern) (stop : Char) (n : Nat) (v : Text) : Prop :=
  (¬ p.Spells v ∧ ¬ p.Spells (squeeze v)) ∨ ∃ s a e, v = s ++ (a ++ e) ∧
    RunEnds a.getLast? (e ++ [stop]) ∧
    CapturedUpTo p stop n v a e ∧ CapturedUpTo p stop n (squeeze v) (squeeze a) (squeeze e)

/-- A pattern for the texts up to a sign is elastic if it captures the same of the squeezed
texts. -/
theorem Elastic.upTo (hk : k.Ample) (hstop : k.has stop = false)
    (hspells : ∀ u, p.Spells u → ∀ y ∈ u, k.has y = true)
    (hcaptures : ∀ v, (∀ y ∈ v, k.has y = true) → CapturesSqueezed p stop n v) :
    Elastic (p ++ Pattern.literal [stop]) := by
  have hblank := hk.not_blank hstop
  rintro R ⟨b, t, cs⟩ K K' hc hK hK' h
  obtain ⟨v, w, rfl, hv, hw⟩ : ∃ v w, t = v ++ w ∧ (∀ y ∈ v, k.has y = true) ∧
      ∀ y, w.head? = some y → k.has y = false :=
    ⟨t.takeWhile k.has, t.dropWhile k.has, List.takeWhile_append_dropWhile.symm,
      List.all_eq_true.1 List.all_takeWhile, fun y hy => not_of_head?_dropWhile hy⟩
  have hwblank : w.head?.any isBlank = false := by
    cases hd : w.head? with
    | none => rfl
    | some y => exact hk.not_blank (hw y hd)
  have hv' : ∀ y ∈ squeeze v, k.has y = true := fun y hy =>
    (mem_of_mem_squeeze hy).elim (fun h => h ▸ hk ' ' (by decide)) (hv y)
  have hw' : (squeeze w).head? = w.head? := head_squeeze hwblank
  have hsqueezed : squeezed ⟨b, v ++ w, cs⟩ =
      ⟨b.map asSpace, squeeze v ++ squeeze w, cs.map Capture.squeezed⟩ := by
    rw [squeezed, squeeze_append_of_runEnds (runEnds_of_head hwblank)]
  rw [hsqueezed]
  by_cases hthrough : w.head? = some stop ∧ (p.Spells v ∨ p.Spells (squeeze v))
  · obtain ⟨hhead, hspelled⟩ := hthrough
    obtain ⟨r, rfl⟩ := List.head?_eq_some_iff.1 hhead
    rcases hcaptures v hv with hnot | ⟨s, a, e, rfl, hruns, hleft, hright⟩
    · exact absurd hspelled (not_or.2 hnot)
    · have hend : squeeze (e ++ stop :: r) = squeeze e ++ stop :: squeeze r := by
        rw [squeeze_append_of_runEnds (runEnds_of_head (by simpa using hblank)),
          squeeze_cons_of_not_blank hblank]
      have hruns' : RunEnds a.getLast? (e ++ stop :: r) := by
        intro hlast
        have hfirst := hruns hlast
        cases e with
        | nil => exact hfirst
        | cons y e => exact hfirst
      have hfit : Cursor.Fit ⟨some stop, r, ⟨n, a ++ (e ++ stop :: r), e ++ stop :: r⟩ :: cs⟩ := by
        refine ⟨runEnds_of_not_blank (by simpa using hblank), fun g hg => ?_⟩
        rcases List.mem_cons.1 hg with rfl | hg
        · exact ⟨a, rfl, hruns'⟩
        · exact hc.whole g hg
      have hreach : Cursor.Reaches ⟨b, s ++ (a ++ e) ++ stop :: r, cs⟩
          ⟨some stop, r, ⟨n, a ++ (e ++ stop :: r), e ++ stop :: r⟩ :: cs⟩ :=
        ⟨s ++ (a ++ e) ++ [stop], by simp, by simp⟩
      have hnext := h _ hfit hreach
      rw [squeezed, Option.map_some, asSpace_of_not_blank hblank, List.map_cons, Capture.squeezed,
        hend, squeeze_append_of_runEnds hruns', hend] at hnext
      rw [hleft b r cs K hK, squeeze_cons_of_not_blank hblank, hright _ _ _ K' hK']
      exact hnext
  · rw [first_stop_eq_none hspells hstop hv hw fun r hr hsp =>
        absurd ⟨by rw [hr]; rfl, Or.inl hsp⟩ hthrough,
      first_stop_eq_none hspells hstop hv' (hw' ▸ hw) fun r hr hsp =>
        absurd ⟨by rw [← hw', hr]; rfl, Or.inr hsp⟩ hthrough]
    exact .none

theorem all_squeeze {P : Char → Prop} (hspace : P ' ') (h : ∀ y ∈ t, P y) : ∀ y ∈ squeeze t, P y :=
  fun y hy => (mem_of_mem_squeeze hy).elim (fun hy => hy ▸ hspace) (h y)

/-- A text of the class that neither begins nor ends with a blank, with blanks around it. -/
structure Padded (k : CharClass) (s a e : Text) : Prop where
  front : ∀ y ∈ s, isBlank y = true
  inner : ∀ y ∈ a, k.has y = true
  head : ∀ y, a.head? = some y → isBlank y = false
  last : ∀ y, a.getLast? = some y → isBlank y = false
  back : ∀ y ∈ e, isBlank y = true
  /-- Of nothing but blanks all are in front. -/
  nil : a = [] → e = []

theorem exists_padded (hv : ∀ y ∈ v, k.has y = true) :
    ∃ s e, v = s ++ (trim v ++ e) ∧ Padded k s (trim v) e := by
  obtain ⟨s, e, hsplit, hs, he⟩ := exists_trim v
  have hinner : ∀ y ∈ trim v, k.has y = true := fun y hy => hv y (mem_of_mem_trim hy)
  by_cases hne : trim v = []
  · refine ⟨s ++ e, [], ?_, fun y hy => (List.mem_append.1 hy).elim (hs y) (he y), hinner,
      fun y hy => head?_trim hy, fun y hy => getLast?_trim hy, by simp, fun _ => rfl⟩
    rw [hne] at hsplit ⊢
    simpa using hsplit
  · exact ⟨s, e, hsplit, hs, hinner, fun y hy => head?_trim hy, fun y hy => getLast?_trim hy, he,
      fun h => absurd h hne⟩

namespace Padded

variable {a e : Text}

theorem runEnds (h : Padded k s a e) (w : Text) : RunEnds a.getLast? w := by
  intro hlast
  cases hd : a.getLast? with
  | none => exact absurd hlast (by simp [hd])
  | some y => exact absurd hlast (by simp [hd, h.last y hd])

theorem squeeze_eq (h : Padded k s a e) :
    Text.squeeze (s ++ (a ++ e)) = Text.squeeze s ++ (Text.squeeze a ++ Text.squeeze e) := by
  rw [squeeze_append (Or.inr fun y hy => ?_), squeeze_append_of_runEnds (h.runEnds e)]
  cases a with
  | nil => rw [h.nil rfl] at hy; exact absurd hy (by simp)
  | cons x a => exact h.head y hy

theorem squeeze (h : Padded k s a e) (hk : k.Ample) :
    Padded k (Text.squeeze s) (Text.squeeze a) (Text.squeeze e) := by
  refine ⟨all_squeeze (by decide) h.front, all_squeeze (hk ' ' (by decide)) h.inner, fun y hy => ?_,
    fun y hy => ?_, all_squeeze (by decide) h.back, fun hnil => ?_⟩
  · rw [head?_squeeze] at hy
    obtain ⟨x, hx, rfl⟩ := Option.map_eq_some_iff.1 hy
    rw [isBlank_asSpace, h.head x hx]
  · rw [getLast?_squeeze] at hy
    obtain ⟨x, hx, rfl⟩ := Option.map_eq_some_iff.1 hy
    rw [isBlank_asSpace, h.last x hx]
  · rw [h.nil (squeeze_eq_nil_iff.1 hnil), squeeze_nil]

end Padded

/-- Where a text is captured without the blanks around it, the same holds of the squeezed text. -/
theorem capturesSqueezed_of_padded (hk : k.Ample) (hstop : k.has stop = false)
    (hspells : ∀ u, p.Spells u → ∀ y ∈ u, k.has y = true) (hv : ∀ y ∈ v, k.has y = true)
    (h : ∀ {s a e : Text}, Padded k s a e → (a = [] → trim v = []) →
      ∀ b r cs K d, K ⟨some stop, r, ⟨n, a ++ (e ++ stop :: r), e ++ stop :: r⟩ :: cs⟩ = some d →
        first (p ++ literal [stop]) ⟨b, s ++ (a ++ (e ++ stop :: r)), cs⟩ K = some d) :
    CapturesSqueezed p stop n v := by
  obtain ⟨s, e, hsplit, hpadded⟩ := exists_padded hv
  refine Or.inr ⟨s, trim v, e, hsplit, hpadded.runEnds _,
    capturedUpTo_of_some hspells hstop hv fun b r cs K d hd => ?_,
    capturedUpTo_of_some hspells hstop (all_squeeze (hk ' ' (by decide)) hv)
      fun b r cs K d hd => ?_⟩
  · have happ : v ++ stop :: r = s ++ (trim v ++ (e ++ stop :: r)) := by
      conv_lhs => rw [hsplit]
      simp
    rw [happ]
    exact h hpadded id b r cs K d hd
  · have happ : squeeze v ++ stop :: r =
        squeeze s ++ (squeeze (trim v) ++ (squeeze e ++ stop :: r)) := by
      conv_lhs => rw [hsplit, hpadded.squeeze_eq]
      simp
    rw [happ]
    exact h (hpadded.squeeze hk) squeeze_eq_nil_iff.1 b r cs K d hd

theorem all_of_spells_argument (hk : k.Ample) (h : (argument n k).Spells u) :
    ∀ y ∈ u, k.has y = true :=
  fun y hy => (of_spells_argument h y hy).elim (hk y) id

theorem all_of_spells_lazyStar (hk : k.Ample)
    (h : (blanks ++ group n (lazyStar (one k)) ++ blanks).Spells u) : ∀ y ∈ u, k.has y = true := by
  obtain ⟨v, e, rfl, ⟨s, a, rfl, hs, vs, rfl, hvs⟩, he⟩ := h
  intro y hy
  simp only [List.mem_append, List.mem_flatten] at hy
  rcases hy with (hy | ⟨v, hv, hy⟩) | hy
  · exact hk y (hs y hy)
  · obtain ⟨x, rfl, hx⟩ := hvs v hv
    exact List.mem_singleton.1 hy ▸ hx
  · exact hk y (he y hy)

/-- Of an argument the same is captured in the squeezed text. -/
theorem capturesSqueezed_argument (hk : k.Ample) (hstop : k.has stop = false)
    (hv : ∀ y ∈ v, k.has y = true) : CapturesSqueezed (argument n k) stop n v := by
  have hblank := hk.not_blank hstop
  have hspells : ∀ u, (argument n k).Spells u → ∀ y ∈ u, k.has y = true :=
    fun u hu => all_of_spells_argument hk hu
  by_cases hne : trim v = []
  · have hall : ∀ y ∈ v, isBlank y = true := words_eq_nil_iff.1 (trim_eq_nil_iff.1 hne)
    rcases List.eq_nil_or_concat v with rfl | ⟨g, x, hgx⟩
    · have hnot : ¬ (argument n k).Spells [] := fun h => ne_nil_of_takesSome (by rfl) h rfl
      exact Or.inl ⟨hnot, hnot⟩
    · -- nothing but blanks: the last one is captured
      rw [List.concat_eq_append] at hgx
      have hx : isBlank x = true := hall x (by simp [hgx])
      have hsqueezed : squeeze v = [' '] := by
        have hrun := squeeze_run (g := v) (t := []) (by simp [hgx]) hall rfl
        rwa [List.append_nil] at hrun
      refine Or.inr ⟨g, [x], [], hgx, runEnds_of_head (by simpa using hblank), fun b r cs K _ => ?_,
        fun b r cs K _ => ?_⟩
      · rw [hgx, List.append_assoc]
        exact first_argument_blank (fun y hy =>
          hall y (by rw [hgx]; exact List.mem_append_left _ hy))
          hx hstop hblank
      · rw [hsqueezed, squeeze_cons_of_blank hx rfl]
        exact first_argument_blank (g := []) (by simp) (by decide) hstop hblank
  · refine capturesSqueezed_of_padded hk hstop hspells hv fun h ha b r cs K d hd => ?_
    exact first_argument h.front (fun hnil => hne (ha hnil)) h.inner h.head h.last h.back hstop
      hblank hd

/-- Of as few characters as possible the same is captured in the squeezed text. -/
theorem capturesSqueezed_lazyStar (hk : k.Ample) (hstop : k.has stop = false)
    (hv : ∀ y ∈ v, k.has y = true) :
    CapturesSqueezed (blanks ++ group n (lazyStar (one k)) ++ blanks) stop n v := by
  have hblank := hk.not_blank hstop
  refine capturesSqueezed_of_padded hk hstop (fun u hu => all_of_spells_lazyStar hk hu) hv
    fun {s a e} h _ b r cs K d hd => ?_
  have hstart : ∀ y, (a ++ (e ++ stop :: r)).head? = some y → isBlank y = false := by
    intro y hy
    cases a with
    | nil => rw [h.nil rfl] at hy; exact Option.some.inj hy ▸ hblank
    | cons x a => exact h.head y hy
  rw [first_append, first_append, first_append, first_blanks_append h.front hstart]
  exact first_lazyStar_blanks h.inner h.last h.back hstop hblank (fun _ => ⟨rfl, rfl⟩) hd

/-- An argument and the sign behind it. -/
theorem Elastic.argument {q : Pattern} (hq : Elastic q) (n : Nat) (hk : k.Ample)
    (hstop : k.has stop = false) :
    Elastic (q ++ Pattern.argument n k ++ Pattern.literal [stop]) :=
  append_assoc (hq.append (upTo hk hstop (fun _ hu => all_of_spells_argument hk hu)
    fun _ hv => capturesSqueezed_argument (n := n) hk hstop hv))

/-- As few characters as possible, the blanks around them and the sign behind. -/
theorem Elastic.lazyArgument {q : Pattern} (hq : Elastic q) (n : Nat) (hk : k.Ample)
    (hstop : k.has stop = false) :
    Elastic (q ++ Pattern.blanks ++ .group n (lazyStar (.one k)) ++ Pattern.blanks
      ++ Pattern.literal [stop]) :=
  hq.append (upTo hk hstop (fun _ hu => all_of_spells_lazyStar hk hu)
    fun _ hv => capturesSqueezed_lazyStar (n := n) hk hstop hv)

end Arguments

end Pattern

end SqlScribe
