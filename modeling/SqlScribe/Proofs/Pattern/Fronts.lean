import SqlScribe.Proofs.Pattern.Behind
import SqlScribe.Proofs.Pattern.Trace

/-!
# In front of a match

What stands in front of the matches that a search finds. A pattern that begins with a run of a class
could begin one character earlier in the same run, so a search does not find it behind a character
of the class. Main statements:

* `map_place_ways`: captures do not decide which ways there are;
* `BeginsInRun`: a pattern that leads from a run to the same places wherever it begins in it;
* `PassesRuns.before_of_mem_findAll`: a search that passes whole runs finds nothing within one.
-/

namespace SqlScribe

namespace Pattern

variable {p q : Pattern} {b : Option Char} {k : CharClass} {c d : Cursor} {t : Text} {m : Match}

/-! ## Ways and captures -/

theorem map_place_flatMap {f : Cursor → List Cursor}
    (hf : ∀ {c d : Cursor}, c.place = d.place → (f c).map Cursor.place = (f d).map Cursor.place)
    {cs ds : List Cursor} (h : cs.map Cursor.place = ds.map Cursor.place) :
    (cs.flatMap f).map Cursor.place = (ds.flatMap f).map Cursor.place := by
  induction cs generalizing ds with
  | nil =>
    obtain rfl := List.map_eq_nil_iff.1 h.symm
    rfl
  | cons c cs ih =>
    obtain ⟨d, ds, rfl, hd, hds⟩ := List.map_eq_cons_iff.1 h.symm
    rw [List.flatMap_cons, List.flatMap_cons, List.map_append, List.map_append, ih hds.symm, hf hd]

/-- Which places a pattern leads to does not depend on what has been captured. -/
theorem map_place_ways (h : c.place = d.place) :
    (ways p c).map Cursor.place = (ways p d).map Cursor.place := by
  induction p generalizing c d with
  | empty => simp [ways, h]
  | one k =>
    obtain ⟨hbefore, hrest⟩ := Prod.ext_iff.1 h
    simp only [Cursor.place] at hbefore hrest
    rw [ways, ways, Cursor.one?, Cursor.one?, hrest]
    cases d.rest with
    | nil => rfl
    | cons x t =>
      by_cases hx : k.has x = true
      · simp [hx, Cursor.place]
      · simp [hx]
  | run k =>
    obtain ⟨hbefore, hrest⟩ := Prod.ext_iff.1 h
    simp only [Cursor.place] at hbefore hrest
    simp [ways, Cursor.run, Cursor.place, hbefore, hrest]
  | anchor a =>
    obtain ⟨hbefore, hrest⟩ := Prod.ext_iff.1 h
    simp only [Cursor.place] at hbefore hrest
    rw [ways, ways, hbefore, hrest]
    split
    · simp [h]
    · rfl
  | seq p q ihp ihq => exact map_place_flatMap ihq (ihp h)
  | alt p q ihp ihq => rw [ways, ways, List.map_append, List.map_append, ihp h, ihq h]
  | star p ih =>
    have hsteps : ∀ n {c d : Cursor}, c.place = d.place →
        (longestFirst (ways p) n c).map Cursor.place
          = (longestFirst (ways p) n d).map Cursor.place := by
      intro n
      induction n with
      | zero => exact fun h => by simp [longestFirst, h]
      | succ n ihn =>
        intro c d h
        rw [longestFirst, longestFirst, List.map_append, List.map_append,
          map_place_flatMap ihn (ih h), List.map_singleton, List.map_singleton, h]
    rw [ways, ways, show c.rest = d.rest from congrArg Prod.snd h]
    exact hsteps _ h
  | lazyStar p ih =>
    have hsteps : ∀ n {c d : Cursor}, c.place = d.place →
        (shortestFirst (ways p) n c).map Cursor.place
          = (shortestFirst (ways p) n d).map Cursor.place := by
      intro n
      induction n with
      | zero => exact fun h => by simp [shortestFirst, h]
      | succ n ihn =>
        intro c d h
        rw [shortestFirst, shortestFirst, List.map_cons, List.map_cons, h,
          map_place_flatMap ihn (ih h)]
    rw [ways, ways, show c.rest = d.rest from congrArg Prod.snd h]
    exact hsteps _ h
  | commit p ih => rw [ways, ways, List.map_take, List.map_take, ih h]
  | group n p ih =>
    have hcapture : ∀ (c : Cursor) (es : List Cursor),
        (es.map (c.capture n)).map Cursor.place = es.map Cursor.place := fun c es => by
      rw [List.map_map]
      rfl
    rw [ways, ways, hcapture, hcapture, ih h]

/-! ## Patterns that begin with a run -/

/-- The pattern takes a character of the class first, and leads to the same places from the next
character if that belongs to the class too. -/
structure BeginsInRun (k : CharClass) (p : Pattern) : Prop where
  takes : p.takesSome = true
  head : ∀ {u}, p.Spells u → ∃ x v, u = x :: v ∧ k.has x = true
  alike : ∀ {b cs ds x y t}, k.has x = true → k.has y = true →
    (ways p ⟨b, x :: y :: t, cs⟩).map Cursor.place = (ways p ⟨some x, y :: t, ds⟩).map Cursor.place

theorem beginsInRun_run1 (k : CharClass) : BeginsInRun k (run1 k) where
  takes := rfl
  head := by
    rintro u ⟨v, w, rfl, ⟨x, rfl, hx⟩, -⟩
    exact ⟨x, w, rfl, hx⟩
  alike := by
    intro b cs ds x y t hx hy
    have hstep : ∀ {b cs x t}, k.has x = true →
        ways (run1 k) ⟨b, x :: t, cs⟩ = [Cursor.run k ⟨some x, t, cs⟩] := fun {b cs x t} hx => by
      show (ways (one k) ⟨b, x :: t, cs⟩).flatMap (ways (run k)) = _
      simp [ways, Cursor.one?, hx]
    rw [hstep hx, hstep hy]
    simp [Cursor.run, Cursor.spanRun, hy, Cursor.place]

namespace BeginsInRun

theorem seq (h : BeginsInRun k p) (q : Pattern) : BeginsInRun k (p ++ q) where
  takes := by
    show (p.takesSome || q.takesSome) = true
    rw [h.takes, Bool.true_or]
  head := by
    rintro u ⟨v, w, rfl, hv, -⟩
    obtain ⟨x, v, rfl, hx⟩ := h.head hv
    exact ⟨x, v ++ w, rfl, hx⟩
  alike hx hy := map_place_flatMap map_place_ways (h.alike hx hy)

theorem alt (hp : BeginsInRun k p) (hq : BeginsInRun k q) : BeginsInRun k (alt p q) where
  takes := by rw [takesSome, hp.takes, hq.takes, Bool.and_true]
  head hu := hu.elim hp.head hq.head
  alike hx hy := by
    rw [ways, ways, List.map_append, List.map_append, hp.alike hx hy, hq.alike hx hy]

theorem group (h : BeginsInRun k p) (n : Nat) : BeginsInRun k (group n p) where
  takes := h.takes
  head := h.head
  alike hx hy := by
    rw [ways, ways, List.map_map, List.map_map]
    exact h.alike hx hy

/-- Where there is a match within a run, there is one from the character in front of it. -/
theorem matchAt?_eq_none (h : BeginsInRun k p) {x : Char} (hx : k.has x = true)
    (hnone : p.matchAt? b (x :: t) = none) : p.matchAt? (some x) t = none := by
  by_contra hne
  obtain ⟨m, hm⟩ := Option.ne_none_iff_exists'.1 hne
  have hof := isOf_of_matchAt? hm
  obtain ⟨y, v, hmtext, hy⟩ := h.head hof.spells
  have ht : t = y :: (v ++ m.after) := by rw [← hof.text_append, hmtext, List.cons_append]
  subst ht
  rw [matchAt?_eq_none_iff h.takes] at hnone
  have hplaces : (ways p ⟨b, x :: y :: (v ++ m.after), []⟩).map Cursor.place
      = (ways p ⟨some x, y :: (v ++ m.after), []⟩).map Cursor.place := h.alike hx hy
  rw [hnone] at hplaces
  exact hne ((matchAt?_eq_none_iff h.takes).2 (List.map_eq_nil_iff.1 hplaces.symm))

end BeginsInRun

/-! ## Searches that pass whole runs -/

/-- The pattern is not found within a run of the class: it would have been found one character
earlier, and it does not end within a run. -/
structure PassesRuns (k : CharClass) (p : Pattern) : Prop where
  earlier : ∀ {b x t}, k.has x = true → p.matchAt? b (x :: t) = none → p.matchAt? (some x) t = none
  behind : ∀ {b t m y}, p.matchAt? b t = some m → m.text.getLast? = some y → k.has y = true →
    p.matchAt? (some y) m.after = none

theorem BeginsInRun.passesRuns (h : BeginsInRun k p)
    (hlast : ∀ {u}, p.Spells u → ∀ c, u.getLast? = some c → k.has c = false) : PassesRuns k p where
  earlier := h.matchAt?_eq_none
  behind hm hy hhas := by
    rw [hlast (isOf_of_matchAt? hm).spells _ hy] at hhas
    exact absurd hhas Bool.false_ne_true

namespace PassesRuns

theorem before_of_mem_piecesFrom (h : PassesRuns k p)
    (hb : ∀ y, b = some y → k.has y = true → p.matchAt? b t = none)
    (hm : .hit m ∈ piecesFrom p b 0 t) : m.before.any k.has = false := by
  induction hn : t.length using Nat.strong_induction_on generalizing b t with
  | _ n ih =>
    cases t with
    | nil => exact absurd hm (by simp [piecesFrom])
    | cons c t =>
      cases hmatch : p.matchAt? b (c :: t) with
      | none =>
        rw [piecesFrom_of_none hmatch] at hm
        refine ih t.length (by simp [← hn]) (b := some c) (t := t) (fun y hy hhas => ?_) ?_ rfl
        · obtain rfl := Option.some.inj hy
          exact h.earlier hhas hmatch
        · exact (List.mem_cons.1 hm).resolve_left (by simp)
      | some m' =>
        have hof := isOf_of_matchAt? hmatch
        have hpieces := piecesFrom_hit (u := m'.text) (r := m'.after) (hof.text_append ▸ hmatch) rfl
        rw [← hof.text_append, hpieces] at hm
        rcases List.mem_cons.1 hm with hm | hm
        · rw [Piece.hit.inj hm, hof.before_eq, Option.any_eq_false]
          intro y hy
          refine Bool.eq_false_iff.2 fun hhas => ?_
          rw [hb y hy hhas] at hmatch
          exact absurd hmatch (by simp)
        · have hshorter : m'.after.length < n := by
            have hlength := congrArg List.length hof.text_append
            have hpos := List.length_pos_iff.2 hof.text_ne
            rw [List.length_append] at hlength
            omega
          refine ih _ hshorter (fun y hy hhas => ?_) hm rfl
          obtain ⟨z, hz⟩ := Option.isSome_iff_exists.1 (List.getLast?_isSome.2 hof.text_ne)
          rw [hz] at hy ⊢
          obtain rfl := Option.some.inj hy
          exact h.behind hmatch hz hhas

/-- **A search finds nothing within a run.** -/
theorem before_of_mem_findAll (h : PassesRuns k p) (hm : m ∈ p.findAll t) :
    m.before.any k.has = false := by
  obtain ⟨piece, hpiece, hhit⟩ := List.mem_filterMap.1 hm
  cases piece with
  | plain c => exact absurd hhit (by simp [Piece.hit?])
  | hit m' =>
    obtain rfl : m' = m := Option.some.inj hhit
    exact h.before_of_mem_piecesFrom (by simp) hpiece

end PassesRuns

end Pattern

end SqlScribe
