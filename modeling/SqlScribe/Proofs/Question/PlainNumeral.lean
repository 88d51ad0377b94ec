import SqlScribe.Proofs.Question.Interval
import SqlScribe.Proofs.Question.LongNumber

/-!
# Numerals of plain units

A numeral of nothing but 억 and 만, each with a number in front of it. Unlike the counts of
`NumeralPhrase` the numbers may be zero. Main statements:

* `PlainNumeral.matchAt?_text`, `PlainNumeral.phraseValue?_plain`: a numeral is found whole and
  read;
* `bareNumberFrom?_plain`: its numbers are the ones among which a long one is looked for.
-/

namespace SqlScribe

open Pattern AmountSum

variable {b : Option Char} {r : Text} {cs : List Capture} {K : Continuation}

/-- A number and the group unit behind it. -/
structure PlainTerm where
  lead : Blanks
  digits : Text
  value : Nat
  spelled : digits.toNat? = some value
  gap : Blanks
  unit : NumeralUnit
  plain : unit ∈ groupUnits

namespace PlainTerm

variable (t : PlainTerm)

/-- How it is written. -/
def text : Text := t.lead.text ++ (t.digits ++ (t.gap.text ++ t.unit.name))

/-- What the unit multiplies by. -/
def size : Nat := t.unit.group.getD 0

def amount : Nat := t.value * t.size

/-- The term it is read as. -/
def term : AmountTerm := ⟨t.digits, t.unit⟩

theorem digits_isDigit : t.digits ≠ [] ∧ ∀ c ∈ t.digits, c.isDigit = true :=
  isDigit_of_toNat? t.spelled

theorem digits_isDecimal : ∀ c ∈ t.digits, isDecimal c = true := fun c hc =>
  isDecimal_of_isDigit (t.digits_isDigit.2 c hc)

theorem unit_mem : t.unit ∈ numeralUnits := CountedUnit.mem_numeralUnits_of_group t.plain

/-- No mark behind it makes its unit a longer one. -/
theorem head_ne (r : Text) : t.unit ∈ smallUnits → r.head? ≠ some '만' := by
  have hall : ∀ u ∈ groupUnits, u ∉ smallUnits := by decide
  exact fun h => absurd h (hall _ t.plain)

theorem unit_spec : t.unit.group = some t.size ∧ t.unit.isPlain = true ∧ 0 < t.size := by
  have hall : ∀ u ∈ groupUnits, u.group = some (u.group.getD 0) ∧ u.isPlain = true ∧
    0 < u.group.getD 0 := by decide
  exact hall _ t.plain

theorem text_append (r : Text) :
    t.text ++ r = t.lead.text ++ (t.digits ++ (t.gap.text ++ (t.unit.name ++ r))) := by
  simp only [text, List.append_assoc]

end PlainTerm

/-- Numbers with group units that become smaller, with the sign of the currency or without it. -/
structure PlainNumeral where
  terms : List PlainTerm
  decreasing : (terms.map PlainTerm.size).Pairwise (· > ·)
  counted : ∃ t ∈ terms.head?, t.lead.text = []
  won : Option Blanks

namespace PlainNumeral

variable (p : PlainNumeral)

/-- How the sign of the currency is written. -/
def ending : Text :=
  match p.won with
  | none => []
  | some gap => gap.text ++ ['원']

/-- How the numeral is written. -/
def text : Text := p.terms.flatMap PlainTerm.text ++ p.ending

def value : Nat := (p.terms.map PlainTerm.amount).sum

theorem ending_eq :
    ∃ (gap : Blanks) (won : Bool), p.ending = gap.text ++ AmountPattern.wonSign won := by
  rw [ending]
  cases p.won with
  | none => exact ⟨.none, false, rfl⟩
  | some gap => exact ⟨gap, true, rfl⟩

theorem isNumeralChar_text : ∀ c ∈ p.text, isNumeralChar c = true := by
  have hblank : ∀ e : Blanks, ∀ c ∈ e.text, isNumeralChar c = true := fun e c hc =>
    isNumeralChar_iff.2 (Or.inl (e.blank c hc))
  intro c hc
  rcases List.mem_append.1 hc with hc | hc
  · obtain ⟨t, -, hc⟩ := List.mem_flatMap.1 hc
    simp only [PlainTerm.text, List.mem_append] at hc
    rcases hc with hc | hc | hc | hc
    · exact hblank t.lead c hc
    · exact isNumeralChar_iff.2 (Or.inr (Or.inl (t.digits_isDigit.2 c hc)))
    · exact hblank t.gap c hc
    · exact isNumeralChar_iff.2
        (Or.inr (Or.inr (Or.inl (mem_unitMarks_of_mem_name t.unit_mem c hc))))
  · obtain ⟨gap, won, hending⟩ := p.ending_eq
    rw [hending] at hc
    rcases List.mem_append.1 hc with hc | hc
    · exact hblank gap c hc
    · cases won with
      | false => exact absurd hc List.not_mem_nil
      | true => exact List.mem_singleton.1 hc ▸ by decide

end PlainNumeral

/-! ## The value -/

/-- A number and its unit add to the sum, if the unit is smaller than the last one. -/
theorem valueWith?_plainTerm (t : PlainTerm) {n : Nat} {l : Option Nat} {ts : List AmountTerm}
    (hl : ∀ x ∈ l, t.size < x) : valueWith? ⟨n, 0, l⟩ (t.term :: ts) =
      if n + t.amount ≤ maxAmount then valueWith? ⟨n + t.amount, 0, some t.size⟩ ts else none := by
  obtain ⟨hgroup, hplain, hpos⟩ := t.unit_spec
  have hdigits : t.digits.isEmpty = false := List.isEmpty_eq_false_iff.2 t.digits_isDigit.1
  have hle : t.value ≤ t.amount := Nat.le_mul_of_pos_right _ hpos
  have hends : endsAt ⟨n, 0, l⟩ t.unit = false := by
    rw [endsAt, hgroup]
    cases l with
    | none => rfl
    | some x => simpa using hl x rfl
  have hsection : sectionWith ⟨n, 0, l⟩ (some t.value) t.unit = t.value := by
    rw [sectionWith, if_pos hplain]
    exact Nat.zero_add _
  rw [valueWith?]
  by_cases hvalue : t.value ≤ maxAmount
  · have hread : t.digits.toNatUpTo? maxAmount = some t.value := by
      rw [Text.toNatUpTo?, t.spelled, Option.filter_some, if_pos (by simpa using hvalue)]
    simp only [PlainTerm.term, hdigits, hread, hends, Option.map_some, Bool.false_eq_true, if_false,
      add?, hsection, amountUpToMax?_of_le hvalue, hgroup]
    rw [← PlainTerm.amount]
    by_cases hsum : n + t.amount ≤ maxAmount
    · rw [amountUpToMax?_of_le hsum, if_pos hsum]
      rfl
    · rw [amountUpToMax?_of_lt (Nat.not_le.1 hsum), if_neg hsum]
      rfl
  · have htoo : t.digits.toNatUpTo? maxAmount = none := by
      rw [Text.toNatUpTo?, t.spelled, Option.filter_some, if_neg (by simpa using hvalue)]
    have hnot : ¬ n + t.amount ≤ maxAmount := by omega
    rw [if_neg hnot]
    simp [PlainTerm.term, hdigits, htoo]

/-- **The numbers with their units** add up. -/
theorem valueWith?_plain {ts : List PlainTerm} {n : Nat} {l : Option Nat} (hn : n ≤ maxAmount)
    (hts : (ts.map PlainTerm.size).Pairwise (· > ·)) (hl : ∀ x ∈ l, ∀ t ∈ ts, t.size < x) :
    valueWith? ⟨n, 0, l⟩ (ts.map PlainTerm.term)
      = amountUpToMax? (n + (ts.map PlainTerm.amount).sum) := by
  induction ts generalizing n l with
  | nil => rfl
  | cons t ts ih =>
    rw [List.map_cons, List.pairwise_cons, List.forall_mem_map] at hts
    rw [List.map_cons, List.map_cons, List.sum_cons, ← Nat.add_assoc,
      valueWith?_plainTerm t fun x hx => hl x hx t List.mem_cons_self]
    by_cases hle : n + t.amount ≤ maxAmount
    · rw [if_pos hle, ih hle hts.2 fun x hx s hs => Option.some.inj hx ▸ hts.1 s hs]
    · rw [if_neg hle, amountUpToMax?_of_lt (by omega)]

/-- The numbers with their units are read as terms. -/
theorem amountTermsFrom_plain (ts : List PlainTerm) (r : Text) :
    ∃ c, amountTermsFrom b (ts.flatMap PlainTerm.text ++ r)
      = ts.map PlainTerm.term ++ amountTermsFrom c r := by
  induction ts generalizing b with
  | nil => exact ⟨b, rfl⟩
  | cons t ts ih =>
    obtain ⟨c, hc⟩ := amountTermsFrom_counted (b := b) (r := ts.flatMap PlainTerm.text ++ r)
      t.lead.blank t.digits_isDigit.1 t.digits_isDigit.2 t.gap.blank t.unit_mem (t.head_ne _)
    obtain ⟨d, hd⟩ := ih (b := c)
    refine ⟨d, ?_⟩
    rw [List.flatMap_cons, List.append_assoc, t.text_append, hc, hd]
    rfl

/-- **The value of a numeral** is the sum of its terms, if it is not too large. -/
theorem PlainNumeral.phraseValue?_plain (p : PlainNumeral) :
    phraseValue? p.text = amountUpToMax? p.value := by
  obtain ⟨t, ht, -⟩ := p.counted
  obtain ⟨ts, hts⟩ := List.head?_eq_some_iff.1 ht
  obtain ⟨c, hc⟩ := amountTermsFrom_plain (b := none) p.terms p.ending
  have hending : amountTermsFrom c p.ending = [] := by
    obtain ⟨gap, won, hending⟩ := p.ending_eq
    rw [hending]
    refine amountTermsFrom_eq_nil fun x hx hmark => ?_
    rcases List.mem_append.1 hx with hx | hx
    · exact Bool.false_ne_true ((isBlank_of_mem_unitMarks hmark).symm.trans (gap.blank x hx))
    · cases won with
      | false => exact List.not_mem_nil hx
      | true => exact absurd (List.mem_singleton.1 hx ▸ hmark) (by decide)
  have hterms : amountTerms p.text = p.terms.map PlainTerm.term := by
    rw [amountTerms_eq, text, hc, hending, List.append_nil]
  have hsum := valueWith?_plain (Nat.zero_le maxAmount) p.decreasing (l := none) (by simp)
  rw [Nat.zero_add, ← value] at hsum
  rw [phraseValue?, hterms, ← hsum, hts, List.map_cons]
  exact if_neg (by simpa [PlainTerm.term] using t.digits_isDigit.1)

/-! ## Finding a numeral -/

/-- The numbers with their units are taken one by one. -/
theorem first_steps_plain {ts : List PlainTerm} {d : Cursor}
    (hstop : unitAt? (behindCount r) = none)
    (hK : K ⟨(ts.flatMap PlainTerm.text).getLast?.or b, r, cs⟩ = some d) :
    first (star AmountPattern.step) ⟨b, ts.flatMap PlainTerm.text ++ r, cs⟩ K = some d := by
  rw [List.flatMap_def] at hK ⊢
  refine first_star (fun u hu => ?_) (fun u vs hsuffix b K => ?_)
    (fun b K => AmountPattern.first_step_eq_none hstop) hK
  · obtain ⟨t, -, rfl⟩ := List.mem_map.1 hu
    simp [PlainTerm.text, t.digits_isDigit.1]
  · obtain ⟨l, -, hmap⟩ := List.suffix_map_iff.1 hsuffix
    obtain ⟨t, ts', rfl, rfl, rfl⟩ := List.map_eq_cons_iff.1 hmap.symm
    rw [t.text_append]
    exact AmountPattern.first_step_append t.lead.blank t.digits_isDecimal t.gap.blank t.unit_mem
      (t.head_ne _)

/-- Behind the sign of the currency, or at the end, no further unit stands. -/
theorem PlainNumeral.unitAt?_ending (p : PlainNumeral) : unitAt? (behindCount p.ending) = none := by
  rw [ending]
  cases p.won with
  | none => rfl
  | some gap => exact unitAt?_behindCount_sign gap []

/-- **A numeral is found whole.** -/
theorem PlainNumeral.matchAt?_text (p : PlainNumeral) :
    AmountPattern.phrase.matchAt? b p.text = some ⟨b, p.text, [], []⟩ := by
  obtain ⟨t, ht, hlead⟩ := p.counted
  obtain ⟨ts, hts⟩ := List.head?_eq_some_iff.1 ht
  obtain ⟨gap, won, hending⟩ := p.ending_eq
  have htext : p.text = t.digits ++ (t.gap.text ++ (t.unit.name ++
      (ts.flatMap PlainTerm.text ++ p.ending))) := by
    rw [text, hts, List.flatMap_cons, List.append_assoc, t.text_append, hlead, List.nil_append]
  obtain ⟨b', hb'⟩ := AmountPattern.first_ending (b := (ts.flatMap PlainTerm.text).getLast?.or
    (t.unit.name.getLast?.or (t.gap.text.getLast?.or (t.digits.getLast?.or b)))) (r := []) gap won
    (by simp)
  rw [List.append_nil, ← hending] at hb'
  have hfirst : first AmountPattern.phrase ⟨b, p.text ++ [], []⟩ some = some ⟨b', [], []⟩ := by
    rw [List.append_nil, htext]
    exact AmountPattern.first_phrase t.digits_isDigit.1 t.digits_isDecimal t.gap.blank t.unit_mem
      (t.head_ne _) (first_steps_plain p.unitAt?_ending hb')
  have hmatch := matchAt?_of_first hfirst (by simp [htext, t.digits_isDigit.1])
  rwa [List.append_nil] at hmatch

/-! ## The numbers of a numeral -/

/-- **The numbers of a numeral** are long numbers or passed. -/
theorem bareNumberFrom?_plain (ts : List PlainTerm) (hb : StandsFree b) (r : Text) :
    ∃ b', StandsFree b' ∧ bareNumberFrom? b (ts.flatMap PlainTerm.text ++ r)
      = ((ts.map PlainTerm.digits).findSome? longNumber?).or (bareNumberFrom? b' r) := by
  induction ts generalizing b with
  | nil => exact ⟨b, hb, rfl⟩
  | cons t ts ih =>
    obtain ⟨b₁, hb₁, hfirst⟩ := bareNumberFrom?_counted t.lead.blank t.digits_isDigit.2 t.gap.blank
      t.unit_mem hb (ts.flatMap PlainTerm.text ++ r)
    obtain ⟨b₂, hb₂, hrest⟩ := ih hb₁
    refine ⟨b₂, hb₂, ?_⟩
    rw [List.flatMap_cons, List.append_assoc, t.text_append, hfirst, hrest, List.map_cons,
      List.findSome?_cons]
    cases longNumber? t.digits <;> rfl

end SqlScribe
