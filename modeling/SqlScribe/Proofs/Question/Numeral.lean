import Mathlib.Algebra.GroupWithZero.Nat
import SqlScribe.Question.Amount

/-!
# Korean numerals

A numeral is put together from groups and what stands behind them. A group is a list of the small
units 천, 백 and 십 and one of the group units 만 and 억, which multiplies all of it; in front of each
unit a count may stand, and blanks may stand between any two of them. Main definitions:

* `CountedUnit`: a unit with its count;
* `NumeralGroup`: small units and the group unit that closes them;
* `NumeralPhrase`: groups that become smaller, and small units behind them, with the text and the
  value of the numeral.

A small unit with nothing between it and 만 is read together with it. So a group is read as
`NumeralGroup.front` and `NumeralGroup.last`, and `NumeralGroup.text_eq` says that this is the same
text.
-/

namespace SqlScribe

/-! ## Units -/

namespace NumeralUnit

def hundredMillion : NumeralUnit := ⟨"억", 1, some 100000000⟩

def tenThousand : NumeralUnit := ⟨"만", 1, some 10000⟩

def thousand : NumeralUnit := ⟨"천", 1000, none⟩

def hundred : NumeralUnit := ⟨"백", 100, none⟩

def ten : NumeralUnit := ⟨"십", 10, none⟩

/-- The unit and 만 behind it, as one unit. -/
def closed (u : NumeralUnit) : NumeralUnit :=
  ⟨u.name ++ tenThousand.name, u.factor, tenThousand.group⟩

end NumeralUnit

open NumeralUnit

/-- The units that add to a section. -/
def smallUnits : List NumeralUnit := [thousand, hundred, ten]

/-- The units that close a section. -/
def groupUnits : List NumeralUnit := [hundredMillion, tenThousand]

/-! ## Counted units -/

/-- Blanks, or nothing. -/
structure Blanks where
  text : Text
  blank : ∀ c ∈ text, isBlank c = true

/-- No blanks. -/
def Blanks.none : Blanks := ⟨[], by simp⟩

/-- One space. -/
def Blanks.space : Blanks := ⟨[' '], by decide⟩

/-- A positive number in digits. -/
structure Count where
  digits : Text
  value : Nat
  spelled : digits.toNat? = some value
  pos : 0 < value

/-- A unit, its count if there is one, and the blanks in front of them. -/
structure CountedUnit where
  lead : Blanks
  count : Option Count
  gap : Blanks
  unit : NumeralUnit

namespace CountedUnit

/-- The digits of the count. -/
def digits (w : CountedUnit) : Text := (w.count.map Count.digits).getD []

/-- How it is written. -/
def text (w : CountedUnit) : Text := w.lead.text ++ (w.digits ++ (w.gap.text ++ w.unit.name))

/-- What it adds to a section; a unit counts once if nothing else is said. -/
def value (w : CountedUnit) : Nat := (w.count.map Count.value).getD 1 * w.unit.factor

/-- The term it is read as. -/
def term (w : CountedUnit) : AmountTerm := ⟨w.digits, w.unit⟩

/-- It is written as nothing but 만. -/
def isBareTenThousand (w : CountedUnit) : Bool := w.text == tenThousand.name

/-- The same with 만 right behind it. -/
def closed (w : CountedUnit) : CountedUnit := { w with unit := w.unit.closed }

/-- What is written for several of them. -/
def textOf (ws : List CountedUnit) : Text := ws.flatMap text

/-- What several of them add to a section. -/
def total (ws : List CountedUnit) : Nat := (ws.map value).sum

theorem textOf_append (ws vs : List CountedUnit) : textOf (ws ++ vs) = textOf ws ++ textOf vs :=
  List.flatMap_append

theorem textOf_singleton (w : CountedUnit) : textOf [w] = w.text := List.append_nil _

theorem total_append (ws vs : List CountedUnit) : total (ws ++ vs) = total ws + total vs := by
  rw [total, List.map_append, List.sum_append, total, total]

theorem total_singleton (w : CountedUnit) : total [w] = w.value := Nat.add_zero _

theorem closed_text (w : CountedUnit) : w.closed.text = w.text ++ tenThousand.name := by
  simp only [closed, text, digits, NumeralUnit.closed, List.append_assoc]

theorem factor_pos {u : NumeralUnit} (hu : u ∈ smallUnits) : 0 < u.factor := by
  simp only [smallUnits, List.mem_cons, List.not_mem_nil, or_false] at hu
  rcases hu with rfl | rfl | rfl <;> decide

theorem small_nil : ∀ w ∈ ([] : List CountedUnit), w.unit ∈ smallUnits :=
  fun _ hw => absurd hw List.not_mem_nil

/-- A small unit always adds something. -/
theorem value_pos {w : CountedUnit} (hw : w.unit ∈ smallUnits) : 0 < w.value := by
  refine Nat.mul_pos ?_ (factor_pos hw)
  cases hc : w.count with
  | none => exact Nat.one_pos
  | some k => exact k.pos

theorem total_eq_zero_iff {ws : List CountedUnit} (hws : ∀ w ∈ ws, w.unit ∈ smallUnits) :
    total ws = 0 ↔ ws = [] := by
  constructor
  · intro h
    cases ws with
    | nil => rfl
    | cons w ws =>
      have hpos := value_pos (hws w List.mem_cons_self)
      rw [total, List.map_cons, List.sum_cons] at h
      omega
  · rintro rfl
    rfl

end CountedUnit

/-! ## Groups -/

/-- Small units, and the group unit that closes them. -/
structure NumeralGroup where
  terms : List CountedUnit
  closer : CountedUnit
  small : ∀ w ∈ terms, w.unit ∈ smallUnits
  closes : closer.unit ∈ groupUnits

namespace NumeralGroup

variable (g : NumeralGroup)

/-- What the group unit multiplies by. -/
def size : Nat := g.closer.unit.group.getD 0

/-- What stands in front of the group unit: the small units and a plain count. With no count a group
unit counts nothing behind small units, and once if it stands alone. -/
def inside : Nat :=
  CountedUnit.total g.terms +
    (g.closer.count.map Count.value).getD (if g.terms.isEmpty then 1 else 0)

def value : Nat := g.inside * g.size

/-- The counted units, from left to right. -/
def words : List CountedUnit := g.terms ++ [g.closer]

/-- The small units that are read one by one. -/
def front : List CountedUnit := if g.closer.isBareTenThousand then g.terms.dropLast else g.terms

/-- The unit that is read last: the group unit, or the last small unit together with it. -/
def last : CountedUnit :=
  if g.closer.isBareTenThousand then
    match g.terms.getLast? with
    | some w => w.closed
    | none => g.closer
  else g.closer

/-- The group as it is read: with its last small unit and the group unit as one, or apart. -/
theorem front_last_cases :
    (g.front = g.terms ∧ g.last = g.closer ∧
      (g.closer.isBareTenThousand = true → g.terms = [])) ∨
    ∃ w, g.terms = g.front ++ [w] ∧ g.last = w.closed ∧ g.closer.isBareTenThousand = true := by
  cases hbare : g.closer.isBareTenThousand with
  | false => exact Or.inl ⟨by simp [front, hbare], by simp [last, hbare], nofun⟩
  | true =>
    rcases List.eq_nil_or_concat g.terms with hnil | ⟨ws, w, hconcat⟩
    · exact Or.inl ⟨by simp [front, hbare, hnil], by simp [last, hbare, hnil], fun _ => hnil⟩
    · rw [List.concat_eq_append] at hconcat
      exact Or.inr ⟨w, by simp [front, hbare, hconcat], by simp [last, hbare, hconcat], rfl⟩

/-- A group is written as it is read. -/
theorem text_eq : CountedUnit.textOf g.words = CountedUnit.textOf (g.front ++ [g.last]) := by
  rw [words, CountedUnit.textOf_append, CountedUnit.textOf_append, CountedUnit.textOf_singleton,
    CountedUnit.textOf_singleton]
  rcases g.front_last_cases with ⟨hfront, hlast, -⟩ | ⟨w, hterms, hlast, hbare⟩
  · rw [hfront, hlast]
  · rw [hterms, CountedUnit.textOf_append, CountedUnit.textOf_singleton, hlast,
      CountedUnit.closed_text, beq_iff_eq.1 hbare, List.append_assoc]

theorem front_small : ∀ w ∈ g.front, w.unit ∈ smallUnits := by
  intro w hw
  refine g.small w ?_
  rw [front] at hw
  split at hw
  · exact (List.dropLast_sublist _).subset hw
  · exact hw

end NumeralGroup

/-! ## Phrases -/

/-- Groups that become smaller, and small units behind them; the phrase begins with a count. -/
structure NumeralPhrase where
  groups : List NumeralGroup
  rest : List CountedUnit
  small : ∀ w ∈ rest, w.unit ∈ smallUnits
  decreasing : (groups.map NumeralGroup.size).Pairwise (· > ·)
  counted : ∃ w ∈ (groups.flatMap NumeralGroup.words ++ rest).head?,
    w.lead.text = [] ∧ w.count.isSome = true

namespace NumeralPhrase

variable (p : NumeralPhrase)

/-- The counted units, from left to right. -/
def words : List CountedUnit := p.groups.flatMap NumeralGroup.words ++ p.rest

/-- How the phrase is written. -/
def text : Text := CountedUnit.textOf p.words

/-- **The value of a phrase**: each group times its unit, and the small units behind the groups. -/
def value : Nat := (p.groups.map NumeralGroup.value).sum + CountedUnit.total p.rest

/-- The counted units as they are read. -/
def read : List CountedUnit := p.groups.flatMap (fun g => g.front ++ [g.last]) ++ p.rest

theorem text_eq : p.text = CountedUnit.textOf p.read := by
  have hgroups : ∀ gs : List NumeralGroup, CountedUnit.textOf (gs.flatMap NumeralGroup.words)
      = CountedUnit.textOf (gs.flatMap fun g => g.front ++ [g.last]) := by
    intro gs
    induction gs with
    | nil => rfl
    | cons g gs ih =>
      rw [List.flatMap_cons, List.flatMap_cons, CountedUnit.textOf_append,
        CountedUnit.textOf_append, g.text_eq, ih]
  rw [text, words, read, CountedUnit.textOf_append, CountedUnit.textOf_append, hgroups]

end NumeralPhrase

end SqlScribe
