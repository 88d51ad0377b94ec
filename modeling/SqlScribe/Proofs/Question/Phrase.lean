import SqlScribe.Proofs.Pattern.Heads
import SqlScribe.Proofs.Question.PhraseValue

/-!
# Finding a phrase

Where the search for phrases finds one, and which text it takes: a phrase up to a place behind which
no further unit stands, with the blanks and the sign of the currency behind it. Main statements:

* `AmountPattern.first_step`, `AmountPattern.first_steps`: counted units are taken one by one;
* `AmountPattern.matchAt?_text`: a phrase is taken whole;
* `AmountPattern.matchAt?_won`: so is a number with the sign of the currency.
-/

namespace SqlScribe

open Pattern CountedUnit

variable {b : Option Char} {t r : Text} {cs : List Capture} {K : Continuation}

/-! ## Counted units -/

/-- What stands behind the count at the start of a text, and the blanks around it. -/
def behindCount (t : Text) : Text := behindDigits (t.dropWhile isBlank)

theorem CountedUnit.Apart.suffix {ws vs : List CountedUnit} (h : Apart r ws) (hv : vs <:+ ws) :
    Apart r vs := by
  obtain ⟨us, rfl⟩ := hv
  exact (apart_append.1 h).2

theorem CountedUnit.Apart.unit_mem {ws : List CountedUnit} (h : Apart r ws) {w : CountedUnit}
    (hw : w ∈ ws) : w.unit ∈ numeralUnits := by
  obtain ⟨us, vs, rfl⟩ := List.append_of_mem hw
  exact (apart_append.1 h).2.1

/-- In front of 만 there is a further unit. -/
theorem head_ne_of_behindCount (h : unitAt? (behindCount t) = none) : t.head? ≠ some '만' := by
  intro hhead
  obtain ⟨s, rfl⟩ := List.head?_eq_some_iff.1 hhead
  have hbehind : behindCount ('만' :: s) = '만' :: s := by
    rw [behindCount, behindDigits, List.dropWhile_cons_of_neg (by decide),
      List.dropWhile_cons_of_neg (by
        simp [isDecimal_of_mem_unitMarks (show '만' ∈ unitMarks by decide)]),
      List.dropWhile_cons_of_neg (by decide)]
  rw [hbehind] at h
  exact absurd (h.symm.trans (unitAt?_append (u := NumeralUnit.tenThousand) (by decide)
    fun hsmall => absurd hsmall (by decide))) (by simp)

namespace AmountPattern

/-- A unit with or without a count. -/
def step : Pattern := blanks ++ run .decimal ++ blanks ++ unit

/-- The sign of the currency, if it is there. -/
def wonSign (won : Bool) : Text := if won then ['원'] else []

theorem first_digits {d : Text} (hne : d ≠ []) (hd : ∀ c ∈ d, isDecimal c = true)
    (hr : ∀ c, r.head? = some c → isDecimal c = false) :
    first (run1 .decimal) ⟨b, d ++ r, cs⟩ K = K ⟨d.getLast?.or b, r, cs⟩ := by
  obtain ⟨x, d, rfl⟩ := List.exists_cons_of_ne_nil hne
  obtain ⟨hx, hd⟩ := List.forall_mem_cons.1 hd
  rw [run1, first_append, List.cons_append,
    first_one_of_has (show CharClass.has .decimal x = true from hx), Text.getLast?_cons_or]
  exact first_run_append hd hr

/-- A unit with or without digits in front of it is a step, blanks or not. -/
theorem first_step_append {e d g : Text} {u : NumeralUnit} (he : ∀ c ∈ e, isBlank c = true)
    (hd : ∀ c ∈ d, isDecimal c = true) (hg : ∀ c ∈ g, isBlank c = true) (hu : u ∈ numeralUnits)
    (hunit : u ∈ smallUnits → r.head? ≠ some '만') :
    first step ⟨b, e ++ (d ++ (g ++ (u.name ++ r))), cs⟩ K
      = K ⟨(e ++ (d ++ (g ++ u.name))).getLast?.or b, r, cs⟩ := by
  have hname := head_name_append hu r
  have hfound : unitAt? (u.name ++ r) = some u := unitAt?_append hu hunit
  have hlast : (e ++ (d ++ (g ++ u.name))).getLast?.or b = u.name.getLast?.or (g.getLast?.or
      (d.getLast?.or (e.getLast?.or b))) := by
    simp only [List.getLast?_append, Option.or_assoc]
  rw [hlast, step, first_append, first_append, first_append]
  cases d with
  | nil =>
    -- the blanks on both sides of the missing count are one run
    have hblank : ∀ c ∈ e ++ g, isBlank c = true := fun c hc =>
      (List.mem_append.1 hc).elim (he c) (hg c)
    rw [List.nil_append, ← List.append_assoc, first_blanks_append hblank fun c hc => (hname c hc).1,
      first_run_stop (k := .decimal) fun c hc => (hname c hc).2,
      first_blanks_stop fun c hc => (hname c hc).1, first_unit, hfound, Option.bind_some,
      List.drop_left, List.getLast?_append, Option.or_assoc]
    rfl
  | cons x d =>
    have hblank : ∀ c, (x :: d ++ (g ++ (u.name ++ r))).head? = some c → isBlank c = false :=
      fun c hc => Option.some.inj hc ▸ isBlank_of_isDecimal (hd x List.mem_cons_self)
    rw [first_blanks_append he hblank, first_run_append hd (head_blanks_append hg hu r),
      first_blanks_append hg fun c hc => (hname c hc).1, first_unit, hfound, Option.bind_some,
      List.drop_left]

/-- A counted unit is a step. -/
theorem first_step {w : CountedUnit} (hu : w.unit ∈ numeralUnits)
    (hunit : w.unit ∈ smallUnits → r.head? ≠ some '만') :
    first step ⟨b, w.text ++ r, cs⟩ K = K ⟨w.text.getLast?.or b, r, cs⟩ := by
  rw [text]
  simp only [List.append_assoc]
  exact first_step_append w.lead.blank (fun c hc => isDecimal_of_isDigit (w.digits_isDigit c hc))
    w.gap.blank hu hunit

/-- Where no unit stands behind a count there is no step. -/
theorem first_step_eq_none (h : unitAt? (behindCount t) = none) :
    first step ⟨b, t, cs⟩ K = none := by
  rw [step, first_append, first_append, first_append, blanks, first_run, first_run, first_run,
    first_unit]
  rw [behindCount, behindDigits] at h
  exact Option.bind_eq_none_iff.2 fun u hu => absurd (hu.symm.trans h) (by simp)

/-- Counted units are taken one by one, up to a place where no unit stands behind a count. -/
theorem first_steps {ws : List CountedUnit} {d : Cursor} (h : Apart r ws)
    (hstop : unitAt? (behindCount r) = none) (hK : K ⟨(textOf ws).getLast?.or b, r, cs⟩ = some d) :
    first (star step) ⟨b, textOf ws ++ r, cs⟩ K = some d := by
  rw [textOf, List.flatMap_def] at hK ⊢
  refine first_star (fun u hu => ?_) (fun u vs hsuffix b K => ?_)
    (fun b K => first_step_eq_none hstop) hK
  · obtain ⟨w, hw, rfl⟩ := List.mem_map.1 hu
    obtain ⟨c, s, hname, -⟩ := head_name (h.unit_mem hw)
    simp [text, hname]
  · obtain ⟨l, hl, hmap⟩ := List.suffix_map_iff.1 hsuffix
    obtain ⟨w, ws', rfl, rfl, rfl⟩ := List.map_eq_cons_iff.1 hmap.symm
    obtain ⟨hu, hnext, -⟩ := h.suffix hl
    rw [← List.flatMap_def]
    exact first_step hu hnext

/-- Blanks and the sign of the currency behind a phrase are taken with it. -/
theorem first_ending (e : Blanks) (won : Bool)
    (hend : won = false → ∀ c, r.head? = some c → isBlank c = false ∧ c ≠ '원') :
    ∃ b', first (blanks ++ opt (literal "원")) ⟨b, e.text ++ (wonSign won ++ r), cs⟩ some
      = some ⟨b', r, cs⟩ := by
  cases won with
  | true =>
    have hblank : ∀ c, ('원' :: r).head? = some c → isBlank c = false := fun c hc =>
      Option.some.inj hc ▸ by decide
    refine ⟨some '원', ?_⟩
    rw [first_append, wonSign, if_pos rfl, List.singleton_append,
      first_blanks_append e.blank hblank, opt, first]
    rfl
  | false =>
    have hblank : ∀ c, r.head? = some c → isBlank c = false := fun c hc => (hend rfl c hc).1
    have hsign : first (literal "원") ⟨e.text.getLast?.or b, r, cs⟩ some = none :=
      first_literal_of_ne fun h => (hend rfl _ h).2 rfl
    refine ⟨e.text.getLast?.or b, ?_⟩
    rw [first_append, wonSign, if_neg Bool.false_ne_true, List.nil_append,
      first_blanks_append e.blank hblank, opt, first, hsign]
    rfl

/-- A phrase is a unit with digits in front of it, steps behind it, and the sign of the currency if
it is there. -/
theorem first_phrase {d g s : Text} {u : NumeralUnit} {c : Cursor} (hne : d ≠ [])
    (hd : ∀ c ∈ d, isDecimal c = true) (hg : ∀ c ∈ g, isBlank c = true) (hu : u ∈ numeralUnits)
    (hunit : u ∈ smallUnits → s.head? ≠ some '만')
    (hsteps : first (star step) ⟨u.name.getLast?.or (g.getLast?.or (d.getLast?.or b)), s, []⟩
      (fun d => first (blanks ++ opt (literal "원")) d some) = some c) :
    first phrase ⟨b, d ++ (g ++ (u.name ++ s)), []⟩ some = some c := by
  rw [phrase, first]
  simp only [first_append]
  rw [first_digits hne hd (head_blanks_append hg hu _),
    first_blanks_append hg fun c hc => (head_name_append hu _ c hc).1, first_unit,
    unitAt?_append hu hunit, Option.bind_some, List.drop_left]
  simp only [first_append] at hsteps
  rw [← step, hsteps]
  rfl

/-- **A phrase is taken whole**, where no unit stands behind a further count. -/
theorem matchAt?_text (p : NumeralPhrase) (e : Blanks) (won : Bool)
    (hend : won = false → ∀ c, r.head? = some c → isBlank c = false ∧ c ≠ '원')
    (hstop : unitAt? (behindCount (e.text ++ (wonSign won ++ r))) = none) :
    phrase.matchAt? b (p.text ++ (e.text ++ (wonSign won ++ r)))
      = some ⟨b, p.text ++ (e.text ++ wonSign won), [], r⟩ := by
  obtain ⟨w, ws, hread, hlead, hdigits⟩ := p.exists_read_eq_cons
  have hapart := p.apart (r := e.text ++ (wonSign won ++ r)) fun _ => head_ne_of_behindCount hstop
  rw [hread] at hapart
  obtain ⟨hu, hnext, hws⟩ := hapart
  have htext : p.text = w.digits ++ (w.gap.text ++ (w.unit.name ++ textOf ws)) := by
    rw [p.text_eq, hread, textOf, List.flatMap_cons, ← textOf, text, hlead]
    simp only [List.nil_append, List.append_assoc]
  have hfirst : ∃ b', first phrase ⟨b, (p.text ++ (e.text ++ wonSign won)) ++ r, []⟩ some
      = some ⟨b', r, []⟩ := by
    obtain ⟨b', hb'⟩ := first_ending (b := (textOf ws).getLast?.or (w.unit.name.getLast?.or
      (w.gap.text.getLast?.or (w.digits.getLast?.or b)))) e _ hend
    refine ⟨b', ?_⟩
    rw [htext]
    simp only [List.append_assoc]
    exact first_phrase hdigits (fun c hc => isDecimal_of_isDigit (w.digits_isDigit c hc))
      w.gap.blank hu hnext (first_steps hws hstop hb')
  obtain ⟨b', hb'⟩ := hfirst
  have hne : p.text ++ (e.text ++ wonSign won) ≠ [] := by simp [htext, hdigits]
  have hmatch := matchAt?_of_first hb' hne
  rw [List.append_assoc, List.append_assoc] at hmatch
  exact hmatch

/-- A number with the sign of the currency is a phrase. -/
theorem matchAt?_won {d : Text} (hne : d ≠ []) (hd : ∀ c ∈ d, isDecimal c = true) (e : Blanks) :
    phrase.matchAt? b (d ++ (e.text ++ '원' :: r)) = some ⟨b, d ++ (e.text ++ ['원']), [], r⟩ := by
  have hblank : ∀ c, ('원' :: r).head? = some c → isBlank c = false := fun c hc =>
    Option.some.inj hc ▸ by decide
  have hdecimal : ∀ c, (e.text ++ '원' :: r).head? = some c → isDecimal c = false := by
    cases he : e.text with
    | nil => exact fun c hc => Option.some.inj hc ▸ isDecimal_of_mem_nonDigits (by decide)
    | cons x s =>
      exact fun c hc => Option.some.inj hc ▸ isDecimal_of_isBlank
        (e.blank x (he ▸ List.mem_cons_self))
  have hunit : unitAt? ('원' :: r) = none := unitAt?_eq_none fun c hc =>
    Option.some.inj hc ▸ by decide
  have hsign : first (literal "원") ⟨e.text.getLast?.or (d.getLast?.or b), '원' :: r, []⟩ some
      = some ⟨some '원', r, []⟩ := first_literal ['원'] r
  have hfirst : first phrase ⟨b, (d ++ (e.text ++ ['원'])) ++ r, []⟩ some
      = some ⟨some '원', r, []⟩ := by
    simp only [List.append_assoc, List.singleton_append]
    rw [phrase, first]
    simp only [first_append]
    rw [first_digits hne hd hdecimal, first_blanks_append e.blank hblank, first_unit, hunit,
      Option.bind_none, first_digits hne hd hdecimal, first_blanks_append e.blank hblank, hsign]
    rfl
  have hmatch := matchAt?_of_first hfirst (by simp [hne])
  rw [List.append_assoc, List.append_assoc] at hmatch
  exact hmatch

end AmountPattern

end SqlScribe
