import SqlScribe.Proofs.Question.Amount
import SqlScribe.Proofs.Question.Terms

/-!
# The value of a phrase

A phrase is worth what its groups and the small units behind them add up to, unless that is too
large for an amount; a group that is not smaller than the one in front of it is not part of the
phrase, but the small units in front of its unit are read before that is known. Main statements:

* `AmountSum.valueWith?_smalls`, `AmountSum.valueWith?_group`, `AmountSum.valueWith?_groups`: what
  the parts of a phrase do to a sum;
* `NumeralPhrase.phraseValue?_text`: the value of a phrase;
* `NumeralPhrase.phraseValue?_text_append`: the value of two phrases in a row.
-/

namespace SqlScribe

open CountedUnit

variable {s : AmountSum} {n r : Nat} {l : Option Nat} {ts : List AmountTerm}

theorem amountUpToMax?_of_le (h : n ≤ maxAmount) : amountUpToMax? n = some n := if_pos h

theorem amountUpToMax?_of_lt (h : maxAmount < n) : amountUpToMax? n = none :=
  if_neg (Nat.not_le.2 h)

/-! ## Groups -/

namespace NumeralGroup

variable (g : NumeralGroup)

theorem size_pos : 0 < g.size := by
  have hall : ∀ u ∈ groupUnits, 0 < u.group.getD 0 := by decide
  exact hall _ g.closes

/-- The unit that is read last closes the group. -/
theorem group_last_eq : g.last.unit.group = some g.size := by
  have hall : ∀ u ∈ groupUnits, u.group = some (u.group.getD 0) := by decide
  rw [g.group_last.1, size]
  exact hall _ g.closes

theorem inside_le_value : g.inside ≤ g.value := Nat.le_mul_of_pos_right _ g.size_pos

/-- A group holds the units that are read one by one, and what is read last. -/
theorem inside_eq : g.inside = total g.front +
    if g.last.unit.isPlain then
      (g.last.count.map Count.value).getD (if g.front.isEmpty then 1 else 0)
    else g.last.value := by
  rcases g.front_last_cases with ⟨hfront, hlast, -⟩ | ⟨w, hterms, hlast, hbare⟩
  · have hall : ∀ u ∈ groupUnits, u.isPlain = true := by decide
    rw [hfront, hlast, hall _ g.closes, if_pos rfl, inside]
  · have hall : ∀ u ∈ smallUnits, u.closed.isPlain = false := by decide
    have hw : w.unit ∈ smallUnits := g.small w (by rw [hterms]; simp)
    have hplain : w.closed.unit.isPlain = false := hall _ hw
    have hne : g.terms.isEmpty = false := by rw [hterms]; simp
    rw [hlast, hplain, if_neg Bool.false_ne_true, inside, count_of_isBareTenThousand hbare, hne,
      hterms, total_append, total_singleton]
    rfl

theorem total_front_le : total g.front ≤ g.inside := g.inside_eq ▸ Nat.le_add_right _ _

/-- The count that is read last is not more than the group holds. -/
theorem count_le_inside {k : Count} (hk : g.last.count = some k) : k.value ≤ g.inside := by
  have hfactor : 0 < g.last.unit.factor := by
    have hall : ∀ u ∈ numeralUnits, 0 < u.factor := by decide
    exact hall _ g.group_last.2.1
  have hvalue : k.value ≤ g.last.value := by
    rw [CountedUnit.value, hk]
    exact Nat.le_mul_of_pos_right _ hfactor
  rw [g.inside_eq, hk]
  split
  · exact Nat.le_add_left _ _
  · omega

/-- The number that is written in front of the unit that is read last. -/
def endCount : Nat := (g.last.count.map Count.value).getD 0

theorem words_ne_nil : g.words ≠ [] := by simp [words]

/-- A group is read with its first count. -/
theorem head_count : (g.front ++ [g.last]).head?.map (fun w => (w.lead, w.count))
    = g.words.head?.map fun w => (w.lead, w.count) := by
  rw [words]
  rcases g.front_last_cases with ⟨hfront, hlast, -⟩ | ⟨w, hterms, hlast, -⟩
  · rw [hfront, hlast]
  · rw [hlast, hterms, List.append_assoc]
    cases g.front <;> rfl

end NumeralGroup

namespace AmountSum

/-- A count that is too large is no amount. -/
theorem valueWith?_of_count_lt {w : CountedUnit} {k : Count} (hk : w.count = some k)
    (h : maxAmount < k.value) : s.valueWith? (w.term :: ts) = none := by
  have hdigits : w.digits.isEmpty = false := by
    rw [List.isEmpty_eq_false_iff, ne_eq, w.digits_eq_nil_iff, hk]
    simp
  have htoo : w.digits.toNatUpTo? maxAmount = none := by
    rw [digits, hk, Option.map_some, Option.getD_some, Text.toNatUpTo?, k.spelled,
      Option.filter_some, if_neg (by simpa using h)]
  rw [valueWith?]
  simp [term, hdigits, htoo]

/-- A term adds to the sum, unless its unit ends the phrase. -/
theorem valueWith?_term {w : CountedUnit} (h : ∀ k, w.count = some k → k.value ≤ maxAmount) :
    s.valueWith? (w.term :: ts) =
      if s.endsAt w.unit then s.value?
      else (s.add? (w.count.map Count.value) w.unit).bind fun next => next.valueWith? ts := by
  rw [valueWith?]
  cases hc : w.count with
  | none =>
    have hdigits : w.digits.isEmpty = true := List.isEmpty_iff.2 (w.digits_eq_nil_iff.2 hc)
    simp only [term, hdigits, if_true, Option.map_none]
    cases s.add? none w.unit <;> rfl
  | some k =>
    have hdigits : w.digits.isEmpty = false := by
      rw [List.isEmpty_eq_false_iff, ne_eq, w.digits_eq_nil_iff, hc]
      simp
    have hread : w.digits.toNatUpTo? maxAmount = some k.value := by
      rw [digits, hc, Option.map_some, Option.getD_some, Text.toNatUpTo?, k.spelled,
        Option.filter_some, if_pos (by simpa using h k hc)]
    simp only [term, hdigits, hread, Option.map_some, Bool.false_eq_true, if_false]
    cases s.add? (some k.value) w.unit <;> rfl

/-! ## Small units -/

/-- A small unit adds its value to the section. -/
theorem valueWith?_small {w : CountedUnit} (hw : w.unit ∈ smallUnits) (t : Nat) :
    valueWith? ⟨t, r, l⟩ (w.term :: ts) =
      if r + w.value ≤ maxAmount then valueWith? ⟨t, r + w.value, l⟩ ts else none := by
  by_cases hcount : ∃ k, w.count = some k ∧ maxAmount < k.value
  · obtain ⟨k, hk, hlt⟩ := hcount
    have hle : k.value ≤ w.value := by
      rw [value, hk, Option.map_some, Option.getD_some]
      exact Nat.le_mul_of_pos_right _ (factor_pos hw)
    rw [valueWith?_of_count_lt hk hlt, if_neg (by omega)]
  · have hsmall : ∀ u ∈ smallUnits, u.group = none ∧ u.isPlain = false := by decide
    obtain ⟨hgroup, hplain⟩ := hsmall _ hw
    have hends : endsAt ⟨t, r, l⟩ w.unit = false := by
      rw [endsAt, hgroup]
      cases l <;> rfl
    have hsection : sectionWith ⟨t, r, l⟩ (w.count.map Count.value) w.unit = r + w.value := by
      unfold sectionWith
      rw [hplain, if_neg Bool.false_ne_true, value]
    rw [valueWith?_term fun k hk => Nat.not_lt.1 fun hlt => hcount ⟨k, hk, hlt⟩, hends,
      if_neg Bool.false_ne_true, add?, hsection]
    by_cases hle : r + w.value ≤ maxAmount
    · simp only [amountUpToMax?_of_le hle, hgroup, Option.bind_some, if_pos hle]
    · simp only [amountUpToMax?_of_lt (Nat.not_le.1 hle), Option.bind_none, if_neg hle]

/-- Small units add their values one by one. -/
theorem valueWith?_smalls {ws : List CountedUnit} (hws : ∀ w ∈ ws, w.unit ∈ smallUnits)
    (hr : r ≤ maxAmount) (t : Nat) :
    valueWith? ⟨t, r, l⟩ (ws.map term ++ ts) =
      if r + CountedUnit.total ws ≤ maxAmount then
        valueWith? ⟨t, r + CountedUnit.total ws, l⟩ ts
      else none := by
  induction ws generalizing r with
  | nil => exact (if_pos hr).symm
  | cons w ws ih =>
    obtain ⟨hw, hws⟩ := List.forall_mem_cons.1 hws
    have htotal : r + CountedUnit.total (w :: ws) = r + w.value + CountedUnit.total ws := by
      rw [CountedUnit.total, List.map_cons, List.sum_cons, ← CountedUnit.total, Nat.add_assoc]
    rw [List.map_cons, List.cons_append, valueWith?_small hw, htotal]
    by_cases hle : r + w.value ≤ maxAmount
    · rw [if_pos hle, ih hws hle]
    · rw [if_neg hle, if_neg (by omega)]

/-! ## Groups -/

/-- The group unit makes a section of what stands in front of it. -/
theorem sectionWith_last (g : NumeralGroup) :
    sectionWith ⟨n, CountedUnit.total g.front, l⟩ (g.last.count.map Count.value) g.last.unit
      = g.inside := by
  unfold sectionWith
  rw [g.inside_eq]
  cases g.last.unit.isPlain with
  | false => rfl
  | true =>
    rw [if_pos rfl, if_pos rfl]
    cases g.last.count with
    | some k => rfl
    | none =>
      show (if CountedUnit.total g.front = 0 then 1 else CountedUnit.total g.front)
        = CountedUnit.total g.front + if g.front.isEmpty then 1 else 0
      by_cases hnil : g.front = []
      · rw [hnil]
        rfl
      · rw [if_neg ((total_eq_zero_iff g.front_small).not.2 hnil), if_neg (by simp [hnil])]
        rfl

/-- A group that is smaller than the last one is closed by its unit. -/
theorem valueWith?_last (g : NumeralGroup) (hl : ∀ x ∈ l, g.size < x) :
    valueWith? ⟨n, CountedUnit.total g.front, l⟩ (g.last.term :: ts) =
      if n + g.value ≤ maxAmount then valueWith? ⟨n + g.value, 0, some g.size⟩ ts else none := by
  have hinside := g.inside_le_value
  by_cases hcount : ∃ k, g.last.count = some k ∧ maxAmount < k.value
  · obtain ⟨k, hk, hlt⟩ := hcount
    have hle := g.count_le_inside hk
    rw [valueWith?_of_count_lt hk hlt, if_neg (by omega)]
  · have hgroup := g.group_last_eq
    have hends : endsAt ⟨n, CountedUnit.total g.front, l⟩ g.last.unit = false := by
      rw [endsAt, hgroup]
      cases l with
      | none => rfl
      | some x => simpa using hl x rfl
    rw [valueWith?_term fun k hk => Nat.not_lt.1 fun hlt => hcount ⟨k, hk, hlt⟩, hends,
      if_neg Bool.false_ne_true, add?, sectionWith_last]
    by_cases hle : n + g.value ≤ maxAmount
    · simp only [amountUpToMax?_of_le (show g.inside ≤ maxAmount by omega), hgroup]
      rw [← NumeralGroup.value, amountUpToMax?_of_le hle, if_pos hle]
      rfl
    · rw [if_neg hle]
      by_cases hsection : g.inside ≤ maxAmount
      · simp only [amountUpToMax?_of_le hsection, hgroup]
        rw [← NumeralGroup.value, amountUpToMax?_of_lt (Nat.not_le.1 hle)]
        rfl
      · simp only [amountUpToMax?_of_lt (Nat.not_le.1 hsection)]
        rfl

/-- A group that is smaller than the last one adds its value to the sum. -/
theorem valueWith?_group (g : NumeralGroup) (hl : ∀ x ∈ l, g.size < x) :
    valueWith? ⟨n, 0, l⟩ ((g.front ++ [g.last]).map term ++ ts) =
      if n + g.value ≤ maxAmount then valueWith? ⟨n + g.value, 0, some g.size⟩ ts else none := by
  have hfront := g.total_front_le
  have hinside := g.inside_le_value
  rw [List.map_append, List.append_assoc, valueWith?_smalls g.front_small (Nat.zero_le _),
    Nat.zero_add, List.map_singleton, List.singleton_append]
  by_cases hle : CountedUnit.total g.front ≤ maxAmount
  · rw [if_pos hle, valueWith?_last g hl]
  · rw [if_neg hle, if_neg (by omega)]

/-- The last group unit, when groups have been added. -/
def groupAfter (l : Option Nat) (gs : List NumeralGroup) : Option Nat :=
  (gs.getLast?.map NumeralGroup.size).or l

/-- **Groups that become smaller** add their values one by one. -/
theorem valueWith?_groups {gs : List NumeralGroup} (hn : n ≤ maxAmount)
    (hgs : (gs.map NumeralGroup.size).Pairwise (· > ·)) (hl : ∀ x ∈ l, ∀ g ∈ gs, g.size < x) :
    valueWith? ⟨n, 0, l⟩ ((gs.flatMap fun g => g.front ++ [g.last]).map term ++ ts) =
      if n + (gs.map NumeralGroup.value).sum ≤ maxAmount then
        valueWith? ⟨n + (gs.map NumeralGroup.value).sum, 0, groupAfter l gs⟩ ts
      else none := by
  induction gs generalizing n l with
  | nil => exact (if_pos hn).symm
  | cons g gs ih =>
    rw [List.map_cons, List.pairwise_cons, List.forall_mem_map] at hgs
    have hnext : ∀ x ∈ some g.size, ∀ h ∈ gs, h.size < x := fun x hx h hh =>
      Option.some.inj hx ▸ hgs.1 h hh
    have hlast : groupAfter (some g.size) gs = groupAfter l (g :: gs) := by
      rw [groupAfter, groupAfter, List.getLast?_cons]
      cases gs.getLast? <;> rfl
    rw [List.flatMap_cons, List.map_append, List.append_assoc,
      valueWith?_group g fun x hx => hl x hx g List.mem_cons_self, List.map_cons, List.sum_cons,
      ← Nat.add_assoc]
    by_cases hle : n + g.value ≤ maxAmount
    · rw [if_pos hle, ih hle hgs.2 hnext, hlast]
    · rw [if_neg hle, if_neg (by omega)]

/-- A group that is not smaller than the last one ends the phrase at its unit. -/
theorem valueWith?_stop (g : NumeralGroup) (hl : ∃ x ∈ l, x ≤ g.size) :
    valueWith? ⟨n, 0, l⟩ ((g.front ++ [g.last]).map term ++ ts) =
      if g.endCount ≤ maxAmount then amountUpToMax? (n + CountedUnit.total g.front) else none := by
  rw [List.map_append, List.append_assoc, valueWith?_smalls g.front_small (Nat.zero_le _),
    Nat.zero_add, List.map_singleton, List.singleton_append]
  by_cases hcount : g.endCount ≤ maxAmount
  · have hends : endsAt ⟨n, CountedUnit.total g.front, l⟩ g.last.unit = true := by
      obtain ⟨x, rfl, hx⟩ := hl
      rw [endsAt, g.group_last_eq]
      exact decide_eq_true hx
    have hdigits : ∀ k, g.last.count = some k → k.value ≤ maxAmount := fun k hk => by
      rwa [NumeralGroup.endCount, hk] at hcount
    rw [if_pos hcount, valueWith?_term hdigits, hends, if_pos rfl, value?]
    by_cases hle : CountedUnit.total g.front ≤ maxAmount
    · rw [if_pos hle]
    · rw [if_neg hle, amountUpToMax?_of_lt (by omega)]
  · rw [if_neg hcount]
    cases hc : g.last.count with
    | none => exact absurd (Nat.zero_le _) (by rwa [NumeralGroup.endCount, hc] at hcount)
    | some k =>
      have hk : maxAmount < k.value := by
        rw [NumeralGroup.endCount, hc] at hcount
        exact Nat.not_le.1 hcount
      rw [valueWith?_of_count_lt hc hk, ite_self]

end AmountSum

/-! ## Phrases -/

namespace NumeralPhrase

open AmountSum

variable (p : NumeralPhrase)

/-- A phrase is read with its first count, and begins with it. -/
theorem exists_read_eq_cons : ∃ w ws, p.read = w :: ws ∧ w.lead.text = [] ∧ w.digits ≠ [] := by
  obtain ⟨w, hw, hlead, hcount⟩ := p.counted
  have hhead : p.read.head?.map (fun v => (v.lead, v.count)) = some (w.lead, w.count) := by
    rw [← Option.map_some (f := fun v : CountedUnit => (v.lead, v.count)), ← Option.mem_def.1 hw,
      read]
    cases p.groups with
    | nil => rfl
    | cons g gs =>
      have hhead : ∀ {ws : List CountedUnit} (vs us), ws ≠ [] → (ws ++ vs ++ us).head? = ws.head? :=
        fun vs us hne => by rw [List.append_assoc, List.head?_append_of_ne_nil _ hne]
      rw [List.flatMap_cons, hhead _ _ (by simp), g.head_count, List.flatMap_cons,
        hhead _ _ g.words_ne_nil]
  obtain ⟨v, hv, hpair⟩ := Option.map_eq_some_iff.1 hhead
  obtain ⟨ws, hws⟩ := List.head?_eq_some_iff.1 hv
  obtain ⟨hleads, hcounts⟩ := Prod.ext_iff.1 hpair
  refine ⟨v, ws, hws, (congrArg Blanks.text hleads).trans hlead, fun hdigits => ?_⟩
  rw [← show v.count = w.count from hcounts, v.digits_eq_nil_iff.1 hdigits] at hcount
  exact Bool.false_ne_true hcount

/-- The value of a text that begins with a phrase is the value of its terms. -/
theorem phraseValue?_append {r : Text} (hr : p.rest ≠ [] → r.head? ≠ some '만') :
    ∃ c, phraseValue? (p.text ++ r) = zero.valueWith? (p.read.map term ++ amountTermsFrom c r) := by
  obtain ⟨c, hc⟩ := p.amountTermsFrom_text (b := none) hr
  obtain ⟨w, ws, hread, -, hdigits⟩ := p.exists_read_eq_cons
  refine ⟨c, ?_⟩
  rw [phraseValue?, amountTerms_eq, hc, hread, List.map_cons, List.cons_append]
  exact if_neg (by simpa [term] using hdigits)

/-- The sum when a phrase has been read. -/
theorem valueWith?_read : zero.valueWith? (p.read.map term ++ ts) =
    if (p.groups.map NumeralGroup.value).sum ≤ maxAmount ∧ total p.rest ≤ maxAmount then
      valueWith? ⟨(p.groups.map NumeralGroup.value).sum, total p.rest, groupAfter none p.groups⟩ ts
    else none := by
  rw [read, List.map_append, List.append_assoc, zero,
    valueWith?_groups (Nat.zero_le _) p.decreasing (by simp), Nat.zero_add]
  by_cases hgroups : (p.groups.map NumeralGroup.value).sum ≤ maxAmount
  · rw [if_pos hgroups, valueWith?_smalls p.small (Nat.zero_le _), Nat.zero_add]
    simp only [hgroups, true_and]
  · rw [if_neg hgroups, if_neg fun h => hgroups h.1]

/-- What is written behind a phrase without a unit does not change its value. -/
theorem phraseValue?_text_ending {e : Text} (he : ∀ c ∈ e, c ∉ unitMarks) :
    phraseValue? (p.text ++ e) = amountUpToMax? p.value := by
  obtain ⟨c, hc⟩ := p.phraseValue?_append (r := e)
    fun _ hhead => he _ (List.mem_of_head? hhead) (by decide)
  rw [hc, amountTermsFrom_eq_nil he, p.valueWith?_read, valueWith?, AmountSum.value?,
    ← NumeralPhrase.value]
  by_cases hle : p.value ≤ maxAmount
  · have hparts := hle
    rw [NumeralPhrase.value] at hparts
    rw [if_pos ⟨by omega, by omega⟩]
  · rw [amountUpToMax?_of_lt (Nat.not_le.1 hle), ite_self]

/-- **The value of a phrase** is the sum of its parts, if it is not too large. -/
theorem phraseValue?_text (gap : Blanks) (won : Bool) :
    phraseValue? (p.text ++ (gap.text ++ if won then ['원'] else [])) =
      if p.value ≤ maxAmount then some p.value else none := by
  refine p.phraseValue?_text_ending fun c hc hmark => ?_
  rcases List.mem_append.1 hc with hc | hc
  · exact Bool.false_ne_true ((isBlank_of_mem_unitMarks hmark).symm.trans (gap.blank c hc))
  · cases won with
    | false => exact List.not_mem_nil hc
    | true =>
      obtain rfl := List.mem_singleton.1 hc
      exact absurd hmark (by decide)

/-! ## Two phrases -/

/-- A phrase begins with a digit. -/
theorem exists_text_eq_cons : ∃ x s, p.text = x :: s ∧ x.isDigit = true := by
  obtain ⟨w, ws, hread, hlead, hdigits⟩ := p.exists_read_eq_cons
  obtain ⟨x, d, hx⟩ := List.exists_cons_of_ne_nil hdigits
  refine ⟨x, d ++ (w.gap.text ++ w.unit.name) ++ textOf ws, ?_,
    w.digits_isDigit x (hx ▸ List.mem_cons_self)⟩
  rw [p.text_eq, hread, textOf, List.flatMap_cons, ← textOf, CountedUnit.text, hlead, hx]
  rfl

/-- A phrase begins with the terms of its first group. -/
theorem amountTermsFrom_head {f : NumeralGroup} (hf : p.groups.head? = some f) (b : Option Char)
    (r : Text) : ∃ c s, amountTermsFrom b (p.text ++ r)
      = (f.front ++ [f.last]).map term ++ amountTermsFrom c s := by
  obtain ⟨gs, hgs⟩ := List.head?_eq_some_iff.1 hf
  have htext : p.text ++ r = textOf (f.front ++ [f.last])
      ++ (textOf (gs.flatMap NumeralGroup.words ++ p.rest) ++ r) := by
    rw [text, words, hgs, List.flatMap_cons, List.append_assoc, textOf_append, f.text_eq,
      List.append_assoc]
  obtain ⟨c, hc⟩ := amountTermsFrom_append (b := b) (f.apart _)
  exact ⟨c, _, htext ▸ hc⟩

/-- **Two phrases in a row**, where the groups stop to become smaller: the small units that are read
one by one in front of the first group unit of the second phrase still count, and a number in front
of that unit must not be too large. So the value is that of the first phrase exactly if there are no
such units, or if the first phrase is too large itself. -/
theorem phraseValue?_text_append {p q : NumeralPhrase} {f : NumeralGroup} (hp : p.rest = [])
    (hf : q.groups.head? = some f) (hle : ∀ g ∈ p.groups.getLast?, g.size ≤ f.size) (sep : Blanks)
    (r : Text) :
    phraseValue? (p.text ++ (sep.text ++ (q.text ++ r))) =
        (if f.endCount ≤ maxAmount then amountUpToMax? (p.value + total f.front) else none) ∧
      (phraseValue? (p.text ++ (sep.text ++ (q.text ++ r))) = phraseValue? p.text ↔
        maxAmount < p.value ∨ f.front = [] ∧ f.endCount ≤ maxAmount) := by
  have hvalue : p.value = (p.groups.map NumeralGroup.value).sum := by
    rw [value, hp]
    exact Nat.add_zero _
  have hlast : ∃ x ∈ groupAfter none p.groups, x ≤ f.size := by
    cases hgs : p.groups.getLast? with
    | none =>
      obtain ⟨w, hw, -⟩ := p.counted
      rw [List.getLast?_eq_none_iff.1 hgs, hp] at hw
      exact absurd hw (by simp)
    | some g => exact ⟨g.size, by rw [groupAfter, hgs]; rfl, hle g hgs⟩
  obtain ⟨c, hc⟩ := p.phraseValue?_append (r := sep.text ++ (q.text ++ r)) fun h => absurd hp h
  have hdigit : ∀ x, ((q.text ++ r).dropWhile isBlank).head? = some x → x ∉ unitMarks := by
    obtain ⟨y, t, hy, hdigit⟩ := q.exists_text_eq_cons
    intro x hx
    rw [hy, List.cons_append, List.dropWhile_cons_of_neg
      (by simp [isBlank_of_isDecimal (isDecimal_of_isDigit hdigit)])] at hx
    exact not_mem_unitMarks_of_isDigit (Option.some.inj hx ▸ hdigit)
  obtain ⟨d, hd⟩ := amountTermsFrom_blanks (b := c) sep.blank hdigit
  obtain ⟨e, s, hs⟩ := q.amountTermsFrom_head hf d r
  have hjoined : phraseValue? (p.text ++ (sep.text ++ (q.text ++ r))) =
      if f.endCount ≤ maxAmount then amountUpToMax? (p.value + total f.front) else none := by
    rw [hc, hd, hs, p.valueWith?_read, hp, ← hvalue]
    by_cases hmax : p.value ≤ maxAmount
    · rw [if_pos ⟨hmax, Nat.zero_le _⟩]
      exact valueWith?_stop f hlast
    · rw [if_neg fun h => hmax h.1, amountUpToMax?_of_lt (by omega), ite_self]
  have hfirst : phraseValue? p.text = amountUpToMax? p.value := by
    have hending := p.phraseValue?_text_ending (e := []) (by simp)
    rwa [List.append_nil] at hending
  refine ⟨hjoined, ?_⟩
  rw [hjoined, hfirst, ← total_eq_zero_iff f.front_small]
  by_cases hmax : p.value ≤ maxAmount
  · rw [amountUpToMax?_of_le hmax, amountUpToMax?]
    split
    · next hcount =>
      rw [Option.ite_none_right_eq_some, Option.some.injEq]
      omega
    · next hcount =>
      simp only [reduceCtorEq, false_iff]
      omega
  · rw [amountUpToMax?_of_lt (Nat.not_le.1 hmax), amountUpToMax?_of_lt (by omega), ite_self]
    simp only [true_iff]
    exact Or.inl (Nat.not_le.1 hmax)

/-- The phrase `5천만`. -/
def fiftyMillion : NumeralPhrase where
  groups := [⟨[⟨.none, some ⟨"5", 5, by decide, by decide⟩, .none, .thousand⟩],
    ⟨.none, none, .none, .tenThousand⟩, by decide, by decide⟩]
  rest := []
  small := by decide
  decreasing := by decide
  counted := ⟨_, rfl, rfl, rfl⟩

/-- The phrase `6천5백만`. -/
def sixtyFiveMillion : NumeralPhrase where
  groups := [⟨[⟨.none, some ⟨"6", 6, by decide, by decide⟩, .none, .thousand⟩,
      ⟨.none, some ⟨"5", 5, by decide, by decide⟩, .none, .hundred⟩],
    ⟨.none, none, .none, .tenThousand⟩, by decide, by decide⟩]
  rest := []
  small := by decide
  decreasing := by decide
  counted := ⟨_, rfl, rfl, rfl⟩

/-- In `5천만 6천5백만` the unit 6천 counts. -/
theorem phraseValue?_fiftyMillion_append :
    phraseValue? (fiftyMillion.text ++ (Blanks.space.text ++ (sixtyFiveMillion.text ++ []))) =
        some 50006000 ∧
      phraseValue? (fiftyMillion.text ++ (Blanks.space.text ++ (sixtyFiveMillion.text ++ []))) ≠
        phraseValue? fiftyMillion.text := by
  obtain ⟨hvalue, hiff⟩ := phraseValue?_text_append (p := fiftyMillion) (q := sixtyFiveMillion) rfl
    rfl (by decide) Blanks.space []
  exact ⟨hvalue.trans (by decide), hiff.not.2 (by decide)⟩

/-- The second of two phrases is not always left out. -/
theorem not_phraseValue?_append_eq :
    ¬ ∀ (p q : NumeralPhrase) (f : NumeralGroup), p.rest = [] → q.groups.head? = some f →
      (∀ g ∈ p.groups.getLast?, g.size ≤ f.size) →
        phraseValue? (p.text ++ (Blanks.space.text ++ q.text)) = phraseValue? p.text := by
  intro h
  exact absurd (h fiftyMillion sixtyFiveMillion _ rfl rfl (by decide)) (by decide +kernel)

end NumeralPhrase

end SqlScribe
