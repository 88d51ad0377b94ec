import SqlScribe.Proofs.Clause.Opening
import SqlScribe.Proofs.Pattern.Hits
import SqlScribe.Proofs.Pattern.Walk
import SqlScribe.Proofs.Question.Numeral

/-!
# Reading the terms of a phrase

What the search for terms finds in the text of counted units. Main statements:

* `AmountPattern.matchAt?_term`: a term is found where digits, blanks and a unit stand;
* `CountedUnit.amountTermsFrom_append`: counted units are read one by one, where no small unit
  stands right in front of 만;
* `NumeralPhrase.amountTermsFrom_text`: a phrase is read as the counted units of
  `NumeralPhrase.read`.
-/

namespace SqlScribe

open Pattern

variable {b : Option Char} {t r : Text} {cs : List Capture} {K : Continuation} {u : NumeralUnit}

/-! ## Units -/

/-- The unit whose name stands at the start of a text. -/
def unitAt? (t : Text) : Option NumeralUnit := numeralUnits.find? fun u => u.name.isPrefixOf t

namespace AmountPattern

theorem first_unit (t : Text) : first unit ⟨b, t, cs⟩ K =
    (unitAt? t).bind fun u => K ⟨u.name.getLast?.or b, t.drop u.name.length, cs⟩ := by
  have hnames : numeralUnits.map (fun u => literal u.name)
      = (numeralUnits.map NumeralUnit.name).map literal := by rw [List.map_map]; rfl
  rw [unit, first, hnames, first_oneOf_literal (by decide), List.find?_map, Option.map_map, unitAt?,
    Option.bind_map]
  rfl

end AmountPattern

/-- The characters that names of units begin with. -/
def unitMarks : Text := "억천백십만"

theorem head_name (hu : u ∈ numeralUnits) : ∃ c s, u.name = c :: s ∧ c ∈ unitMarks := by
  have hall : ∀ u ∈ numeralUnits, u.name.head?.any (unitMarks.contains ·) = true := by decide
  obtain ⟨c, hc, hmem⟩ := (Option.any_eq_true ..).1 (hall u hu)
  obtain ⟨s, hs⟩ := List.head?_eq_some_iff.1 hc
  exact ⟨c, s, hs, List.contains_iff_mem.1 hmem⟩

theorem isBlank_of_mem_unitMarks {c : Char} (h : c ∈ unitMarks) : isBlank c = false := by
  have hall : ∀ c ∈ unitMarks, isBlank c = false := by decide
  exact hall c h

/-- Characters of units, of the currency and of connectors, and forms of letters. -/
def nonDigits : Text := unitMarks ++ "원에서부터~-ſ\u212a"

theorem isDecimal_of_mem_nonDigits {c : Char} (h : c ∈ nonDigits) : isDecimal c = false := by
  have hall : ∀ c ∈ nonDigits, isDecimal c = false := by decide +kernel
  exact hall c h

theorem isDecimal_of_mem_unitMarks {c : Char} (h : c ∈ unitMarks) : isDecimal c = false :=
  isDecimal_of_mem_nonDigits (List.mem_append_left _ h)

theorem not_mem_unitMarks_of_isDigit {c : Char} (h : c.isDigit = true) : c ∉ unitMarks := fun hc =>
  Bool.false_ne_true ((isDecimal_of_mem_unitMarks hc).symm.trans (isDecimal_of_isDigit h))

/-- A unit is found where its name stands, unless 만 behind it makes it a longer one. -/
theorem unitAt?_append (hu : u ∈ numeralUnits) (hr : u ∈ smallUnits → r.head? ≠ some '만') :
    unitAt? (u.name ++ r) = some u := by
  simp only [numeralUnits, List.mem_cons, List.not_mem_nil, or_false] at hu
  rcases hu with rfl | rfl | rfl | rfl | rfl | hu
  · rfl
  · rfl
  · rfl
  · rfl
  · rfl
  · have hlong : ['만'].isPrefixOf r = false := by
      have hhead := hr (by rcases hu with rfl | rfl | rfl <;> decide)
      cases r with
      | nil => rfl
      | cons c r => simpa [List.isPrefixOf] using fun h => hhead (by rw [h]; rfl)
    rcases hu with rfl | rfl | rfl <;> simp [unitAt?, numeralUnits, List.isPrefixOf, hlong]

theorem unitAt?_eq_none (ht : ∀ c, t.head? = some c → c ∉ unitMarks) : unitAt? t = none := by
  refine List.find?_eq_none.2 fun u hu hprefix => ?_
  obtain ⟨c, s, hname, hc⟩ := head_name hu
  rw [hname] at hprefix
  obtain ⟨w, rfl⟩ := List.isPrefixOf_iff_prefix.1 hprefix
  exact ht c rfl hc

/-! ## Counted units -/

theorem dropWhile_eq_self_of_head {f : Char → Bool} (h : ∀ c, t.head? = some c → f c = false) :
    t.dropWhile f = t := Text.dropWhile_append_of_head (t := []) (by simp) h

/-- Digits that spell a number. -/
theorem isDigit_of_toNat? {d : Text} {n : Nat} (h : d.toNat? = some n) :
    d ≠ [] ∧ ∀ c ∈ d, c.isDigit = true := by
  rw [Text.toNat?] at h
  split at h
  · exact absurd h (by simp)
  · next hdigit => simpa [List.isEmpty_iff] using hdigit

theorem Count.digits_isDigit (k : Count) : k.digits ≠ [] ∧ ∀ c ∈ k.digits, c.isDigit = true :=
  isDigit_of_toNat? k.spelled

namespace CountedUnit

variable (w : CountedUnit)

theorem digits_isDigit : ∀ c ∈ w.digits, c.isDigit = true := by
  rw [digits]
  cases w.count with
  | none => simp
  | some k => exact k.digits_isDigit.2

theorem digits_eq_nil_iff : w.digits = [] ↔ w.count = none := by
  rw [digits]
  cases w.count with
  | none => simp
  | some k => simp [k.digits_isDigit.1]

end CountedUnit

/-- What stands behind the digits at the start of a text, and the blanks behind them. -/
def behindDigits (t : Text) : Text := (t.dropWhile isDecimal).dropWhile isBlank

/-- The name of a unit begins neither with a blank nor with a digit. -/
theorem head_name_append (hu : u ∈ numeralUnits) (r : Text) :
    ∀ c, (u.name ++ r).head? = some c → isBlank c = false ∧ isDecimal c = false := by
  obtain ⟨c, s, hname, hc⟩ := head_name hu
  rw [hname]
  exact fun y hy => Option.some.inj hy ▸
    ⟨isBlank_of_mem_unitMarks hc, isDecimal_of_mem_unitMarks hc⟩

/-- Blanks in front of the name of a unit do not begin with a digit. -/
theorem head_blanks_append {e : Text} (he : ∀ c ∈ e, isBlank c = true) (hu : u ∈ numeralUnits)
    (r : Text) : ∀ c, (e ++ (u.name ++ r)).head? = some c → isDecimal c = false := by
  cases e with
  | nil => exact fun y hy => (head_name_append hu r y hy).2
  | cons x e =>
    exact fun y hy => Option.some.inj hy ▸ isDecimal_of_isBlank (he x List.mem_cons_self)

namespace AmountPattern

theorem matchAt?_term_eq_none (h : unitAt? (behindDigits t) = none) : term.matchAt? b t = none := by
  refine matchAt?_eq_none_of_first ?_
  rw [term, first_append, first_append, first_group, first_run, blanks, first_run, first_group,
    first_unit]
  rw [behindDigits] at h
  exact Option.bind_eq_none_iff.2 fun u hu => absurd (hu.symm.trans h) (by simp)

/-- A term is found where digits, blanks and a unit stand. -/
theorem matchAt?_term {d e : Text} (hd : ∀ c ∈ d, isDecimal c = true)
    (he : ∀ c ∈ e, isBlank c = true) (hu : u ∈ numeralUnits)
    (hunit : unitAt? (u.name ++ r) = some u) :
    term.matchAt? b (d ++ (e ++ (u.name ++ r)))
      = some ⟨b, d ++ (e ++ u.name), [(2, u.name), (1, d)], r⟩ := by
  have hfirst : first term ⟨b, (d ++ (e ++ u.name)) ++ r, []⟩ some
      = some ⟨u.name.getLast?.or (e.getLast?.or (d.getLast?.or b)), r,
        [⟨2, u.name ++ r, r⟩, ⟨1, d ++ (e ++ (u.name ++ r)), e ++ (u.name ++ r)⟩]⟩ := by
    rw [List.append_assoc, List.append_assoc, term, first_append, first_append, first_group,
      first_run_append hd (head_blanks_append he hu r), Cursor.capture,
      first_blanks_append he fun c hc => (head_name_append hu r c hc).1, first_group, first_unit,
      hunit, Option.bind_some, List.drop_left, Cursor.capture]
  obtain ⟨c, s, hname, -⟩ := head_name hu
  have hmatch := matchAt?_of_first hfirst (by simp [hname])
  rw [List.append_assoc, List.append_assoc] at hmatch
  rw [hmatch, List.map_cons, List.map_singleton, text_capture, text_capture]

end AmountPattern

/-! ## Terms -/

/-- The term that a match is read as. -/
def Match.amountTerm? (m : Match) : Option AmountTerm :=
  (numeralUnits.find? fun u => u.name == m.group 2).map fun u => ⟨m.group 1, u⟩

/-- The terms of the text behind `b`. -/
def amountTermsFrom (b : Option Char) (t : Text) : List AmountTerm :=
  ((piecesFrom AmountPattern.term b 0 t).filterMap Piece.hit?).filterMap Match.amountTerm?

theorem amountTerms_eq (t : Text) : amountTerms t = amountTermsFrom none t := rfl

theorem amountTermsFrom_cons {c : Char} (h : unitAt? (behindDigits (c :: t)) = none) :
    amountTermsFrom b (c :: t) = amountTermsFrom (some c) t := by
  rw [amountTermsFrom, piecesFrom_of_none (AmountPattern.matchAt?_term_eq_none h)]
  rfl

theorem amountTermsFrom_unit {d e : Text} (hd : ∀ c ∈ d, isDecimal c = true)
    (he : ∀ c ∈ e, isBlank c = true) (hu : u ∈ numeralUnits)
    (hr : u ∈ smallUnits → r.head? ≠ some '만') :
    ∃ c, amountTermsFrom b (d ++ (e ++ (u.name ++ r))) = ⟨d, u⟩ :: amountTermsFrom c r := by
  have hmatch := AmountPattern.matchAt?_term (b := b) hd he hu (unitAt?_append hu hr)
  have hname : ∀ v ∈ numeralUnits, (numeralUnits.find? fun w => w.name == v.name) = some v := by
    decide
  have htext : d ++ (e ++ (u.name ++ r)) = (d ++ (e ++ u.name)) ++ r := by
    rw [List.append_assoc, List.append_assoc]
  rw [htext] at hmatch ⊢
  refine ⟨(d ++ (e ++ u.name)).getLast?.or b, ?_⟩
  rw [amountTermsFrom, piecesFrom_hit hmatch rfl]
  have hterm : Match.amountTerm? ⟨b, d ++ (e ++ u.name), [(2, u.name), (1, d)], r⟩
      = some ⟨d, u⟩ := by
    show (numeralUnits.find? fun w => w.name == u.name).map _ = _
    rw [hname u hu]
    rfl
  have hhit : Piece.hit? (.hit ⟨b, d ++ (e ++ u.name), [(2, u.name), (1, d)], r⟩)
      = some ⟨b, d ++ (e ++ u.name), [(2, u.name), (1, d)], r⟩ := rfl
  rw [List.filterMap_cons_some hhit, List.filterMap_cons_some hterm, amountTermsFrom]

/-- Without the mark of a unit there are no terms. -/
theorem amountTermsFrom_eq_nil (ht : ∀ c ∈ t, c ∉ unitMarks) : amountTermsFrom b t = [] := by
  induction t generalizing b with
  | nil => rfl
  | cons c t ih =>
    rw [amountTermsFrom_cons, ih fun x hx => ht x (List.mem_cons_of_mem c hx)]
    refine unitAt?_eq_none fun x hx => ht x ?_
    exact (List.dropWhile_suffix _).subset ((List.dropWhile_suffix _).subset (List.mem_of_head? hx))

/-- Blanks are passed, unless a unit stands behind them. -/
theorem amountTermsFrom_blanks {e : Text} (he : ∀ c ∈ e, isBlank c = true)
    (ht : ∀ c, (t.dropWhile isBlank).head? = some c → c ∉ unitMarks) :
    ∃ c, amountTermsFrom b (e ++ t) = amountTermsFrom c t := by
  induction e generalizing b with
  | nil => exact ⟨b, rfl⟩
  | cons y e ih =>
    obtain ⟨hy, he⟩ := List.forall_mem_cons.1 he
    obtain ⟨c, hc⟩ := ih (b := some y) he
    refine ⟨c, ?_⟩
    have hbehind : behindDigits (y :: (e ++ t)) = t.dropWhile isBlank := by
      rw [behindDigits, List.dropWhile_cons_of_neg (by simp [isDecimal_of_isBlank hy]),
        List.dropWhile_cons_of_pos hy, List.dropWhile_append_of_pos he]
    rw [List.cons_append, amountTermsFrom_cons, hc]
    rw [hbehind]
    exact unitAt?_eq_none ht

/-- A unit with digits in front of it is read as a term, blanks or not. -/
theorem amountTermsFrom_counted {e d g : Text} (he : ∀ c ∈ e, isBlank c = true) (hne : d ≠ [])
    (hd : ∀ c ∈ d, c.isDigit = true) (hg : ∀ c ∈ g, isBlank c = true) (hu : u ∈ numeralUnits)
    (hr : u ∈ smallUnits → r.head? ≠ some '만') :
    ∃ c, amountTermsFrom b (e ++ (d ++ (g ++ (u.name ++ r)))) = ⟨d, u⟩ :: amountTermsFrom c r := by
  have hhead : ∀ c, ((d ++ (g ++ (u.name ++ r))).dropWhile isBlank).head? = some c →
      c ∉ unitMarks := by
    obtain ⟨x, d, rfl⟩ := List.exists_cons_of_ne_nil hne
    have hx := hd x List.mem_cons_self
    intro c hc
    rw [List.cons_append, List.dropWhile_cons_of_neg
      (by simp [isBlank_of_isDecimal (isDecimal_of_isDigit hx)])] at hc
    exact not_mem_unitMarks_of_isDigit (Option.some.inj hc ▸ hx)
  obtain ⟨c, hc⟩ := amountTermsFrom_blanks (b := b) he hhead
  rw [hc]
  exact amountTermsFrom_unit (fun x hx => isDecimal_of_isDigit (hd x hx)) hg hu hr

namespace CountedUnit

/-- A counted unit is read as its term. -/
theorem amountTermsFrom_text (w : CountedUnit) (hu : w.unit ∈ numeralUnits)
    (hr : w.unit ∈ smallUnits → r.head? ≠ some '만') :
    ∃ c, amountTermsFrom b (w.text ++ r) = w.term :: amountTermsFrom c r := by
  rw [term]
  cases hd : w.digits with
  | nil =>
    have htext : w.text ++ r = [] ++ ((w.lead.text ++ w.gap.text) ++ (w.unit.name ++ r)) := by
      simp only [text, hd, List.nil_append, List.append_assoc]
    rw [htext]
    refine amountTermsFrom_unit (by simp) (fun c hc => ?_) hu hr
    exact (List.mem_append.1 hc).elim (w.lead.blank c) (w.gap.blank c)
  | cons x d =>
    have htext : w.text ++ r = w.lead.text ++ (x :: d ++ (w.gap.text ++ (w.unit.name ++ r))) := by
      simp only [text, hd, List.append_assoc]
    rw [htext]
    exact amountTermsFrom_counted w.lead.blank (List.cons_ne_nil x d) (hd ▸ w.digits_isDigit)
      w.gap.blank hu hr

/-- The units are read one by one: no small unit stands right in front of 만. -/
def Apart (r : Text) : List CountedUnit → Prop
  | [] => True
  | w :: ws => w.unit ∈ numeralUnits ∧ (w.unit ∈ smallUnits → (textOf ws ++ r).head? ≠ some '만') ∧
      Apart r ws

/-- **Counted units are read as their terms.** -/
theorem amountTermsFrom_append {ws : List CountedUnit} (h : Apart r ws) :
    ∃ c, amountTermsFrom b (textOf ws ++ r) = ws.map term ++ amountTermsFrom c r := by
  induction ws generalizing b with
  | nil => exact ⟨b, rfl⟩
  | cons w ws ih =>
    obtain ⟨hu, hnext, hws⟩ := h
    obtain ⟨c, hc⟩ := w.amountTermsFrom_text (b := b) hu hnext
    obtain ⟨d, hd⟩ := ih (b := c) hws
    refine ⟨d, ?_⟩
    rw [textOf, List.flatMap_cons, List.append_assoc, ← textOf, hc, hd]
    rfl

theorem apart_append {ws vs : List CountedUnit} :
    Apart r (ws ++ vs) ↔ Apart (textOf vs ++ r) ws ∧ Apart r vs := by
  induction ws with
  | nil => simp [Apart]
  | cons w ws ih =>
    rw [List.cons_append, Apart, Apart, ih, textOf_append, List.append_assoc, and_assoc, and_assoc]

/-- Only 만 itself, with nothing in front of it, begins with its name. -/
theorem isBareTenThousand_of_head {w : CountedUnit} (hu : w.unit ∈ numeralUnits)
    (h : w.text.head? = some '만') :
    w.isBareTenThousand = true ∧ w.unit = NumeralUnit.tenThousand := by
  have hblank : ∀ e : Blanks, e.text.head? ≠ some '만' := fun e he =>
    absurd (e.blank _ (List.mem_of_head? he)) (by decide)
  have hdigit : w.digits.head? ≠ some '만' := fun hd =>
    absurd (w.digits_isDigit _ (List.mem_of_head? hd)) (by decide)
  have hnil : ∀ {t s : Text}, (t ++ s).head? = some '만' → t.head? ≠ some '만' → t = [] := by
    intro t s hts ht
    cases t with
    | nil => rfl
    | cons c t => exact absurd hts ht
  rw [text] at h
  have hlead := hnil h (hblank w.lead)
  rw [hlead, List.nil_append] at h
  have hdigits := hnil h hdigit
  rw [hdigits, List.nil_append] at h
  have hgap := hnil h (hblank w.gap)
  rw [hgap, List.nil_append] at h
  have hall : ∀ u ∈ numeralUnits, u.name.head? = some '만' → u = NumeralUnit.tenThousand := by decide
  have hunit := hall _ hu h
  exact ⟨by rw [isBareTenThousand, text, hlead, hdigits, hgap, hunit]; rfl, hunit⟩

theorem count_of_isBareTenThousand {w : CountedUnit} (h : w.isBareTenThousand = true) :
    w.count = none := by
  have htext : w.text = NumeralUnit.tenThousand.name := beq_iff_eq.1 h
  refine w.digits_eq_nil_iff.1 (List.eq_nil_iff_forall_not_mem.2 fun c hc => ?_)
  have hmem : c ∈ w.text := by
    rw [text]
    exact List.mem_append_right _ (List.mem_append_left _ hc)
  have hall : ∀ c ∈ NumeralUnit.tenThousand.name, c.isDigit = false := by decide
  rw [htext] at hmem
  exact Bool.false_ne_true ((hall c hmem).symm.trans (w.digits_isDigit c hc))

theorem mem_numeralUnits_of_small {u : NumeralUnit} (hu : u ∈ smallUnits) : u ∈ numeralUnits := by
  have hall : ∀ u ∈ smallUnits, u ∈ numeralUnits := by decide
  exact hall u hu

theorem mem_numeralUnits_of_group {u : NumeralUnit} (hu : u ∈ groupUnits) : u ∈ numeralUnits := by
  have hall : ∀ u ∈ groupUnits, u ∈ numeralUnits := by decide
  exact hall u hu

/-- A text in front of which something other than bare 만 is written does not begin with 만. -/
theorem head_text_append {w : CountedUnit} (hu : w.unit ∈ numeralUnits)
    (hbare : w.isBareTenThousand = false ∨ w.unit ≠ NumeralUnit.tenThousand) (t : Text) :
    (w.text ++ t).head? ≠ some '만' := by
  intro h
  obtain ⟨c, s, hname, -⟩ := head_name hu
  have hne : w.text ≠ [] := by simp [text, hname]
  rw [List.head?_append_of_ne_nil _ hne] at h
  obtain ⟨htrue, hunit⟩ := isBareTenThousand_of_head hu h
  rcases hbare with hfalse | hother
  · exact Bool.false_ne_true (hfalse.symm.trans htrue)
  · exact hother hunit

/-- Small units are read one by one. -/
theorem apart_of_small {ws : List CountedUnit} (hws : ∀ w ∈ ws, w.unit ∈ smallUnits)
    (hr : ws ≠ [] → r.head? ≠ some '만') : Apart r ws := by
  induction ws with
  | nil => trivial
  | cons w ws ih =>
    obtain ⟨hw, hws⟩ := List.forall_mem_cons.1 hws
    have hlast := hr (List.cons_ne_nil w ws)
    refine ⟨mem_numeralUnits_of_small hw, fun _ => ?_, ih hws fun _ => hlast⟩
    cases ws with
    | nil => exact hlast
    | cons v ws =>
      have hv := hws v List.mem_cons_self
      rw [textOf, List.flatMap_cons, List.append_assoc]
      refine head_text_append (mem_numeralUnits_of_small hv) (Or.inr ?_) _
      have hall : ∀ u ∈ smallUnits, u ≠ NumeralUnit.tenThousand := by decide
      exact hall _ hv

end CountedUnit

open CountedUnit

theorem NumeralGroup.group_last (g : NumeralGroup) : g.last.unit.group = g.closer.unit.group ∧
    g.last.unit ∈ numeralUnits ∧ g.last.unit ∉ smallUnits := by
  rcases g.front_last_cases with ⟨-, hlast, -⟩ | ⟨w, hterms, hlast, hbare⟩
  · rw [hlast]
    have hall : ∀ u ∈ groupUnits, u ∈ numeralUnits ∧ u ∉ smallUnits := by decide
    exact ⟨rfl, hall _ g.closes⟩
  · have hw : w.unit ∈ smallUnits := g.small w (by rw [hterms]; simp)
    have hall : ∀ u ∈ smallUnits, u.closed ∈ numeralUnits ∧ u.closed ∉ smallUnits := by decide
    have hcloser : g.closer.unit = NumeralUnit.tenThousand :=
      (isBareTenThousand_of_head (mem_numeralUnits_of_group g.closes)
        (by rw [beq_iff_eq.1 hbare]; rfl)).2
    rw [hlast, hcloser]
    exact ⟨rfl, hall _ hw⟩

/-- A group is read unit by unit, whatever follows. -/
theorem NumeralGroup.apart (g : NumeralGroup) (r : Text) : Apart r (g.front ++ [g.last]) := by
  obtain ⟨-, hu, hsmall⟩ := g.group_last
  refine apart_append.2 ⟨apart_of_small g.front_small fun hne => ?_, hu, fun h => absurd h hsmall,
    trivial⟩
  rw [textOf_singleton]
  refine head_text_append hu ?_ _
  rcases g.front_last_cases with ⟨hfront, hlast, hbare⟩ | ⟨w, hterms, hlast, -⟩
  · rw [hlast]
    exact Or.inl (Bool.eq_false_iff.2 fun h => hne (hfront.trans (hbare h)))
  · have hw : w.unit ∈ smallUnits := g.small w (by rw [hterms]; simp)
    have hall : ∀ u ∈ smallUnits, u.closed ≠ NumeralUnit.tenThousand := by decide
    rw [hlast]
    exact Or.inr (hall _ hw)

/-- A phrase is read unit by unit, unless a small unit at its end stands right in front of 만. -/
theorem NumeralPhrase.apart (p : NumeralPhrase) (hr : p.rest ≠ [] → r.head? ≠ some '만') :
    Apart r p.read := by
  refine apart_append.2 ⟨?_, apart_of_small p.small hr⟩
  generalize textOf p.rest ++ r = s
  generalize p.groups = gs
  induction gs with
  | nil => trivial
  | cons g gs ih => exact apart_append.2 ⟨g.apart _, ih⟩

/-- **A phrase is read as the terms of its counted units.** -/
theorem NumeralPhrase.amountTermsFrom_text (p : NumeralPhrase)
    (hr : p.rest ≠ [] → r.head? ≠ some '만') :
    ∃ c, amountTermsFrom b (p.text ++ r) = p.read.map CountedUnit.term ++ amountTermsFrom c r := by
  rw [p.text_eq]
  exact amountTermsFrom_append (p.apart hr)

end SqlScribe
