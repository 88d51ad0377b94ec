import SqlScribe.Proofs.Question.Fronts
import SqlScribe.Proofs.Question.Phrase

/-!
# Long numbers

The search for a long number goes through a text run by run: a run of five digits or more is read or
passed, all else is passed. Main statements:

* `bareNumberFrom?_append`, `bareNumberFrom?_digits`: characters that are no digits, and runs of
  digits;
* `bareNumberFrom?_counted`: digits with a unit behind them are a long number like any other.
-/

namespace SqlScribe

open Pattern

variable {b : Option Char} {c : Char} {t r : Text} {d : Text}

/-! ## Long numbers -/

/-- The first long number without a unit in the text behind `b`. -/
def bareNumberFrom? (b : Option Char) (t : Text) : Option Nat :=
  ((piecesFrom AmountPattern.bare b 0 t).filterMap Piece.hit?).findSome? bareNumber?

theorem bareNumberIn?_eq_from (t : Text) : bareNumberIn? t = bareNumberFrom? none t := rfl

/-- A long number that is not too large. -/
def longNumber? (d : Text) : Option Nat := if 5 ≤ d.length then d.toNatUpTo? maxAmount else none

/-- Where no five digits stand no long number begins. -/
theorem bareNumberFrom?_cons (h : ((c :: t).takeWhile isDecimal).length < 5) :
    bareNumberFrom? b (c :: t) = bareNumberFrom? (some c) t := by
  have hnone : AmountPattern.bare.matchAt? b (c :: t) = none := by
    by_contra hne
    obtain ⟨m, hm⟩ := Option.ne_none_iff_exists'.1 hne
    obtain ⟨u, s, ht, hlength, hdecimal⟩ := AmountPattern.exists_of_matchAt?_bare hm
    rw [ht, List.takeWhile_append_of_pos hdecimal, List.length_append] at h
    omega
  rw [bareNumberFrom?, piecesFrom_of_none hnone]
  rfl

/-- Characters that are no digits are passed. -/
theorem bareNumberFrom?_append (hd : ∀ c ∈ d, isDecimal c = false) (r : Text) :
    bareNumberFrom? b (d ++ r) = bareNumberFrom? (d.getLast?.or b) r := by
  induction d generalizing b with
  | nil => rfl
  | cons x d ih =>
    obtain ⟨hx, hd⟩ := List.forall_mem_cons.1 hd
    rw [List.cons_append, bareNumberFrom?_cons, ih hd, Text.getLast?_cons_or]
    rw [List.takeWhile_cons_of_neg (by simp [hx])]
    decide

/-- The match of a run of digits. -/
def runMatch (b : Option Char) (d r : Text) : Match := ⟨b, d, [], r⟩

/-- **A run of digits** is a long number or passed. -/
theorem bareNumberFrom?_digits (hd : ∀ c ∈ d, isDecimal c = true)
    (hr : ∀ c, r.head? = some c → isDecimal c = false) :
    bareNumberFrom? b (d ++ r) =
      (if 5 ≤ d.length then bareNumber? (runMatch b d r) else none).or
        (bareNumberFrom? (d.getLast?.or b) r) := by
  split
  · next hlength =>
    have hdrop : r.dropWhile isDecimal = r := dropWhile_eq_self_of_head hr
    have hmatch : AmountPattern.bare.matchAt? b (d ++ r) = some (runMatch b d r) := by
      have htake := AmountPattern.matchAt?_bare (b := b) (u := d.take 5)
        (by rw [List.length_take]; omega) (fun x hx => hd x (List.mem_of_mem_take hx))
        (d.drop 5 ++ r)
      have hrest : ∀ x ∈ d.drop 5, isDecimal x = true := fun x hx => hd x (List.mem_of_mem_drop hx)
      rw [Text.takeWhile_append_of_head hrest hr, List.dropWhile_append_of_pos hrest, hdrop,
        ← List.append_assoc, List.take_append_drop] at htake
      exact htake
    rw [bareNumberFrom?, piecesFrom_hit hmatch rfl]
    show List.findSome? bareNumber? (runMatch b d r :: _) = _
    rw [List.findSome?_cons]
    cases bareNumber? (runMatch b d r) <;> rfl
  · next hlength =>
    rw [Option.none_or]
    induction d generalizing b with
    | nil => rfl
    | cons x d ih =>
      rw [List.cons_append, bareNumberFrom?_cons, ih (List.forall_mem_cons.1 hd).2,
        Text.getLast?_cons_or]
      · exact fun h => hlength (h.trans (Nat.le_succ _))
      · rw [← List.cons_append, Text.takeWhile_append_of_head hd hr]
        omega

/-- A place behind which a number is whole. -/
def StandsFree (b : Option Char) : Prop :=
  b.any (fun c => c.isDigit || c == ',' || c == '.') = false

theorem standsFree_of_isBlank (h : isBlank c = true) : StandsFree (some c) := by
  have hdigit : c.isDigit = false := by
    refine Bool.eq_false_iff.2 fun hdigit => ?_
    rw [isBlank_of_isDecimal (isDecimal_of_isDigit hdigit)] at h
    exact Bool.false_ne_true h
  have hmark : ∀ x : Char, isBlank x = false → c ≠ x := by
    rintro x hx rfl
    exact Bool.false_ne_true (hx.symm.trans h)
  simp [StandsFree, hdigit, hmark ',' (by decide), hmark '.' (by decide)]

theorem standsFree_of_mem_unitMarks (h : c ∈ unitMarks) : StandsFree (some c) := by
  have hall : ∀ c ∈ unitMarks, (c.isDigit || c == ',' || c == '.') = false := by decide
  exact hall c h

/-- A run that stands free is read, unless it counts people or years. -/
theorem bareNumber?_runMatch (hb : StandsFree b) {e : Text} (he : ∀ c ∈ e, isBlank c = true)
    (hblank : isBlank c = false) (hpeople : c ≠ '명') (hyear : c ≠ '년') (d r : Text) :
    bareNumber? (runMatch b d (e ++ c :: r)) = d.toNatUpTo? maxAmount := by
  have hguard : (runMatch b d (e ++ c :: r)).continuesNumber = false := hb
  have htrim : Text.trimStart (e ++ c :: r) = c :: r := by
    rw [Text.trimStart, List.dropWhile_append_of_pos he,
      List.dropWhile_cons_of_neg (by simp [hblank])]
  rw [bareNumber?, hguard, if_neg Bool.false_ne_true, runMatch, htrim]
  split
  · next heq => exact absurd (Option.some.inj heq) hpeople
  · next heq => exact absurd (Option.some.inj heq) hyear
  · rfl

/-- Neither people nor years are counted by a number with a unit or the sign of the currency. -/
theorem bareNumber?_counted (hb : StandsFree b) {e : Text} (he : ∀ c ∈ e, isBlank c = true)
    (hc : c ∈ unitMarks ∨ c = '원') (d r : Text) :
    bareNumber? (runMatch b d (e ++ c :: r)) = d.toNatUpTo? maxAmount := by
  have hall : ∀ c ∈ unitMarks ++ ['원'], isBlank c = false ∧ c ≠ '명' ∧ c ≠ '년' := by decide
  obtain ⟨hblank, hpeople, hyear⟩ := hall c (by simpa using hc)
  exact bareNumber?_runMatch hb he hblank hpeople hyear d r

/-- Behind a comma no number begins. -/
theorem bareNumber?_comma (d r : Text) : bareNumber? (runMatch (some ',') d r) = none := rfl

/-! ## Numbers with a unit -/

/-- The names of units have no other characters than the marks. -/
theorem mem_unitMarks_of_mem_name {u : NumeralUnit} (hu : u ∈ numeralUnits) :
    ∀ c ∈ u.name, c ∈ unitMarks := by
  have hall : ∀ u ∈ numeralUnits, ∀ c ∈ u.name, c ∈ unitMarks := by decide
  exact hall u hu

/-- **The digits in front of a unit** are a long number or passed. -/
theorem bareNumberFrom?_counted {e g : Text} {u : NumeralUnit} (he : ∀ c ∈ e, isBlank c = true)
    (hd : ∀ c ∈ d, c.isDigit = true) (hg : ∀ c ∈ g, isBlank c = true) (hu : u ∈ numeralUnits)
    (hb : StandsFree b) (r : Text) : ∃ b', StandsFree b' ∧
      bareNumberFrom? b (e ++ (d ++ (g ++ (u.name ++ r))))
        = (longNumber? d).or (bareNumberFrom? b' r) := by
  have hlead : StandsFree (e.getLast?.or b) := by
    cases hlast : e.getLast? with
    | none => exact hb
    | some c => exact standsFree_of_isBlank (he c (List.mem_of_getLast? hlast))
  obtain ⟨c, s, hname, hc⟩ := head_name hu
  have hbehind : ∀ x ∈ g ++ u.name, isDecimal x = false := fun x hx =>
    (List.mem_append.1 hx).elim (fun hx => isDecimal_of_isBlank (hg x hx))
      fun hx => isDecimal_of_mem_unitMarks (mem_unitMarks_of_mem_name hu x hx)
  have hrun : (if 5 ≤ d.length then
      bareNumber? (runMatch (e.getLast?.or b) d (g ++ (u.name ++ r))) else none)
        = longNumber? d := by
    rw [hname, List.cons_append, bareNumber?_counted hlead hg (Or.inl hc), longNumber?]
  refine ⟨(g ++ u.name).getLast?.or (d.getLast?.or (e.getLast?.or b)), ?_, ?_⟩
  · obtain ⟨x, hx⟩ := Option.isSome_iff_exists.1
      (List.getLast?_isSome.2 (show u.name ≠ [] by simp [hname]))
    rw [List.getLast?_append, hx]
    exact standsFree_of_mem_unitMarks (mem_unitMarks_of_mem_name hu x (List.mem_of_getLast? hx))
  · rw [bareNumberFrom?_append fun x hx => isDecimal_of_isBlank (he x hx),
      bareNumberFrom?_digits (fun x hx => isDecimal_of_isDigit (hd x hx))
      (head_blanks_append hg hu r),
      hrun, ← List.append_assoc, bareNumberFrom?_append hbehind]

/-- Without digits there is no long number. -/
theorem bareNumberFrom?_eq_none (h : ∀ c ∈ t, isDecimal c = false) :
    bareNumberFrom? b t = none := by
  have happ := bareNumberFrom?_append (b := b) h []
  rw [List.append_nil] at happ
  exact happ

end SqlScribe
