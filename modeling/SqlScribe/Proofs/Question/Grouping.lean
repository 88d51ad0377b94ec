import SqlScribe.Proofs.Question.Commas
import SqlScribe.Proofs.Question.Overflow

/-!
# Numbers with commas

What is read of digits with commas between them in front of 만원. Commas are taken out wherever three
digits or more follow; with a comma that stays only the digits in front of it are looked at. Main
statements:

* `joinGroups_fst`, `joinGroups_snd_eq_nil_iff`: the pieces that are joined;
* `ungroupedAmount?_commaText`: what is read when a comma stays;
* `amountIn?_grouped`: what is read of digits with commas between them.
-/

namespace SqlScribe

open Pattern

variable {b : Option Char} {d e r : Text} {ds es : List Text} {n : Nat}

/-! ## Joined pieces -/

/-- The first piece is joined with those behind it, up to one of less than three digits. -/
theorem joinGroups_fst (ds : List Text) (hd : d ≠ []) :
    (joinGroups d ds).1 = d ++ (ds.takeWhile fun e => 3 ≤ e.length).flatten := by
  induction ds generalizing d with
  | nil => exact (List.append_nil d).symm
  | cons e es ih =>
    by_cases he : 3 ≤ e.length
    · have hne : e ≠ [] := List.length_pos_iff.1 (by omega)
      rw [joinGroups, if_pos ⟨hd, he⟩, ih hne, List.takeWhile_cons_of_pos (by simpa using he),
        List.flatten_cons]
    · rw [joinGroups, if_neg fun h => he h.2, List.takeWhile_cons_of_neg (by simpa using he)]
      exact (List.append_nil d).symm

/-- No comma stays exactly if all pieces behind commas have three digits or more. -/
theorem joinGroups_snd_eq_nil_iff (hd : d ≠ []) :
    (joinGroups d ds).2 = [] ↔ ∀ e ∈ ds, 3 ≤ e.length := by
  induction ds generalizing d with
  | nil => simp [joinGroups]
  | cons e es ih =>
    rw [List.forall_mem_cons]
    by_cases he : 3 ≤ e.length
    · have hne : e ≠ [] := List.length_pos_iff.1 (by omega)
      rw [joinGroups, if_pos ⟨hd, he⟩]
      simp only [ih hne, he, true_and]
    · rw [joinGroups, if_neg fun h => he h.2]
      simp [he]

/-- The last piece has something in it. -/
def EndsInDigit (d : Text) (ds : List Text) : Prop := (d :: ds).getLast (List.cons_ne_nil d ds) ≠ []

instance (d : Text) (ds : List Text) : Decidable (EndsInDigit d ds) :=
  inferInstanceAs (Decidable (_ ≠ _))

theorem endsInDigit_cons : EndsInDigit d (e :: es) ↔ EndsInDigit e es := by
  rw [EndsInDigit, EndsInDigit, List.getLast_cons_cons]

/-- Joined pieces have no other characters. -/
theorem forall_joinGroups {P : Char → Prop} (h : ∀ e ∈ d :: ds, ∀ c ∈ e, P c) :
    ∀ e ∈ (joinGroups d ds).1 :: (joinGroups d ds).2, ∀ c ∈ e, P c := by
  induction ds generalizing d with
  | nil => exact h
  | cons e es ih =>
    obtain ⟨hd, hds⟩ := List.forall_mem_cons.1 h
    have hjoined := ih hds
    rw [joinGroups]
    split
    · obtain ⟨hfst, hsnd⟩ := List.forall_mem_cons.1 hjoined
      exact List.forall_mem_cons.2 ⟨List.forall_mem_append.2 ⟨hd, hfst⟩, hsnd⟩
    · exact List.forall_mem_cons.2 ⟨hd, hjoined⟩

theorem EndsInDigit.join (h : EndsInDigit d ds) :
    EndsInDigit (joinGroups d ds).1 (joinGroups d ds).2 := by
  induction ds generalizing d with
  | nil => exact h
  | cons e es ih =>
    have hend := ih (endsInDigit_cons.1 h)
    rw [joinGroups]
    split
    · cases hrest : (joinGroups e es).2 with
      | nil =>
        rw [hrest] at hend
        exact List.append_ne_nil_of_right_ne_nil d hend
      | cons f fs =>
        rw [hrest] at hend
        exact endsInDigit_cons.2 (endsInDigit_cons.1 hend)
    · exact endsInDigit_cons.2 hend

/-! ## Digits in front of 만원 -/

theorem tenThousand_mem_groupUnits : NumeralUnit.tenThousand ∈ groupUnits := by decide

/-- So many times 만원. -/
def PlainNumeral.tenThousands (d : Text) (n : Nat) (hd : d.toNat? = some n) (gap : Blanks) :
    PlainNumeral where
  terms := [⟨.none, d, n, hd, gap, .tenThousand, tenThousand_mem_groupUnits⟩]
  decreasing := List.pairwise_singleton _ _
  counted := ⟨_, rfl, rfl⟩
  won := some .none

/-- Blanks and 만원. -/
def tenThousandWon (gap : Blanks) : Text := gap.text ++ "만원"

theorem PlainNumeral.text_tenThousands (hd : d.toNat? = some n) (gap : Blanks) :
    (tenThousands d n hd gap).text = d ++ tenThousandWon gap := by
  simp [tenThousands, text, ending, PlainTerm.text, Blanks.none, tenThousandWon,
    NumeralUnit.tenThousand]

theorem isDecimal_tenThousandWon (gap : Blanks) :
    ∀ c ∈ tenThousandWon gap, isDecimal c = false := by
  have hall : ∀ c ∈ ("만원" : Text), c ∈ nonDigits := by decide
  exact fun c hc => (List.mem_append.1 hc).elim (fun hc => isDecimal_of_isBlank (gap.blank c hc))
    fun hc => isDecimal_of_mem_nonDigits (hall c hc)

theorem isNumeralChar_tenThousandWon (gap : Blanks) :
    ∀ c ∈ tenThousandWon gap, isNumeralChar c = true := by
  have hall : ∀ c ∈ ("만원" : Text), isNumeralChar c = true := by decide
  exact fun c hc => (List.mem_append.1 hc).elim
    (fun hc => isNumeralChar_iff.2 (Or.inl (gap.blank c hc)))
    (hall c)

theorem exists_toNat? (hne : d ≠ []) (hd : ∀ c ∈ d, c.isDigit = true) : ∃ n, d.toNat? = some n := by
  refine ⟨_, if_neg ?_⟩
  rw [Bool.or_eq_true, not_or, Bool.not_eq_true', Bool.not_eq_false, List.all_eq_true]
  exact ⟨by simpa using hne, hd⟩

/-- What is read of digits in front of 만원. -/
theorem ungroupedAmount?_tenThousands (hd : d.toNat? = some n) (gap : Blanks) :
    ungroupedAmount? (d ++ tenThousandWon gap)
      = ((amountUpToMax? (n * 10000)).or (longNumber? d)).map fun n : Nat => .value n := by
  have hwhole := (PlainNumeral.tenThousands d n hd gap).whole
  have hself := ungroupDigits_eq_self hwhole.chars
  have hread := hwhole.amountIn?_eq
  rw [amountIn?, hself, PlainNumeral.text_tenThousands] at hread
  rw [hread]
  show ((amountUpToMax? (n * 10000 + 0)).or ([d].findSome? longNumber?)).map _ = _
  rw [Nat.add_zero, List.findSome?_singleton]

/-! ## Where a comma stays -/

theorem simpleFold_ne_of_numeralChar_or_comma {c x : Char} (h : isNumeralChar c = true ∨ c = ',')
    (hx : x.isAlpha = true) : simpleFold c ≠ x := by
  rintro rfl
  rcases h with h | rfl
  · exact Bool.false_ne_true ((isAlpha_simpleFold_of_isNumeralChar h).symm.trans hx)
  · exact absurd hx (by decide)

namespace AmountPattern

/-- Digits with a comma behind them are no phrase. -/
theorem matchAt?_phrase_comma (hd : ∀ c ∈ d, isDecimal c = true) (r : Text) :
    phrase.matchAt? b (d ++ ',' :: r) = none := by
  refine matchAt?_eq_none_of_first ?_
  have hcomma : ∀ y, (',' :: r).head? = some y → y = ',' := fun y hy => (Option.some.inj hy).symm
  have hdecimal : ∀ y, (',' :: r).head? = some y → isDecimal y = false := fun y hy =>
    hcomma y hy ▸ isDecimal_comma
  have hblank : ∀ y, (',' :: r).head? = some y → isBlank y = false := fun y hy =>
    hcomma y hy ▸ by decide
  have hunit : unitAt? (',' :: r) = none := unitAt?_eq_none fun y hy => hcomma y hy ▸ by decide
  rw [phrase, first]
  simp only [first_append]
  by_cases hne : d = []
  · subst hne
    rw [run1, first_append, first_append, List.nil_append, first_one_of_not_has hdecimal,
      first_one_of_not_has hdecimal]
    rfl
  · have hsign : ∀ b, first (literal "원") ⟨b, ',' :: r, []⟩ some = none := fun b =>
      first_literal_of_ne (x := '원') fun h => absurd (Option.some.inj h) (by decide)
    rw [first_digits hne hd hdecimal, first_digits hne hd hdecimal, first_blanks_stop hblank,
      first_blanks_stop hblank, first_unit, hunit, hsign]
    rfl

end AmountPattern

/-- The phrases of the text behind `b`. -/
def amountPhrasesFrom (b : Option Char) (t : Text) : List Match :=
  (piecesFrom AmountPattern.phrase b 0 t).filterMap Piece.hit?

theorem amountPhrasesFrom_comma (hd : ∀ c ∈ d, isDecimal c = true) (r : Text) :
    amountPhrasesFrom b (d ++ ',' :: r) = amountPhrasesFrom (some ',') r := by
  induction d generalizing b with
  | nil =>
    rw [List.nil_append, amountPhrasesFrom,
      piecesFrom_of_none (AmountPattern.matchAt?_phrase_comma (d := []) (by simp) r)]
    rfl
  | cons x d ih =>
    have hnone := AmountPattern.matchAt?_phrase_comma (b := b) hd r
    rw [List.cons_append] at hnone
    rw [← ih (b := some x) (List.forall_mem_cons.1 hd).2, amountPhrasesFrom, List.cons_append,
      piecesFrom_of_none hnone]
    rfl

/-- **The only phrase** is the last piece with 만원, behind its comma. -/
theorem amountPhrasesFrom_commaText (gap : Blanks) (hd : ∀ e ∈ d :: ds, ∀ c ∈ e, c.isDigit = true)
    (hlast : EndsInDigit d ds) : ∃ u, amountPhrasesFrom b (commaText d ds ++ tenThousandWon gap)
      = [⟨if ds = [] then b else some ',', u, [], []⟩] := by
  induction ds generalizing b d with
  | nil =>
    obtain ⟨n, hn⟩ := exists_toNat? (show d ≠ [] from hlast) (hd d List.mem_cons_self)
    have hmatch := (PlainNumeral.tenThousands d n hn gap).matchAt?_text (b := b)
    rw [PlainNumeral.text_tenThousands] at hmatch
    have hpieces := piecesFrom_hit (u := d ++ tenThousandWon gap) (r := [])
      (by rw [List.append_nil]; exact hmatch) rfl
    rw [List.append_nil] at hpieces
    refine ⟨d ++ tenThousandWon gap, ?_⟩
    rw [commaText_nil, amountPhrasesFrom, hpieces]
    rfl
  | cons e es ih =>
    obtain ⟨hd, hds⟩ := List.forall_mem_cons.1 hd
    obtain ⟨u, hu⟩ := ih (b := some ',') hds (endsInDigit_cons.1 hlast)
    refine ⟨u, ?_⟩
    rw [commaText_cons, List.append_assoc, List.cons_append,
      amountPhrasesFrom_comma fun c hc => isDecimal_of_isDigit (hd c hc), hu, ite_self]
    rfl

/-- A piece in front of a comma is a long number or passed. -/
theorem bareNumberFrom?_commaText (h : DigitPieces d (e :: es) r) :
    bareNumberFrom? b (commaText d (e :: es) ++ r) =
      (if 5 ≤ d.length then bareNumber? (runMatch b d (',' :: (commaText e es ++ r))) else none).or
        (bareNumberFrom? (some ',') (commaText e es ++ r)) := by
  have hcomma := bareNumberFrom?_append (b := d.getLast?.or b) (d := [','])
    (List.forall_mem_singleton.2 isDecimal_comma) (commaText e es ++ r)
  have hhead : ∀ c, (',' :: (commaText e es ++ r)).head? = some c →
      isDecimal c = false := fun c hc =>
    Option.some.inj hc ▸ isDecimal_comma
  rw [commaText_cons, List.append_assoc, List.cons_append, bareNumberFrom?_digits h.lead hhead]
  exact congrArg _ hcomma

/-- Behind a comma there is no long number. -/
theorem bareNumberFrom?_comma (h : DigitPieces d ds r) (hr : ∀ c ∈ r, isDecimal c = false) :
    bareNumberFrom? (some ',') (commaText d ds ++ r) = none := by
  induction ds generalizing d with
  | nil =>
    rw [commaText_nil, bareNumberFrom?_digits h.lead fun c hc => (h.behind c hc).1,
      bareNumber?_comma, ite_self, Option.none_or, bareNumberFrom?_eq_none hr]
  | cons e es ih =>
    rw [bareNumberFrom?_commaText h, bareNumber?_comma, ite_self, Option.none_or, ih h.tail]

theorem digitPieces_tenThousandWon (hd : ∀ e ∈ d :: ds, ∀ c ∈ e, c.isDigit = true) (gap : Blanks) :
    DigitPieces d ds (tenThousandWon gap) where
  lead c hc := isDecimal_of_isDigit (hd d List.mem_cons_self c hc)
  others e he c hc := isDecimal_of_isDigit (hd e (List.mem_cons_of_mem d he) c hc)
  behind c hc := ⟨isDecimal_tenThousandWon gap c (List.mem_of_head? hc),
    ne_comma_of_isNumeralChar (isNumeralChar_tenThousandWon gap c (List.mem_of_head? hc))⟩

theorem mem_commaText {c : Char} (h : c ∈ commaText d ds) : (∃ e ∈ d :: ds, c ∈ e) ∨ c = ',' := by
  rcases List.mem_append.1 h with h | h
  · exact Or.inl ⟨d, List.mem_cons_self, h⟩
  · obtain ⟨e, he, h⟩ := List.mem_flatMap.1 h
    exact (List.mem_cons.1 h).elim Or.inr fun h => Or.inl ⟨e, List.mem_cons_of_mem d he, h⟩

/-- **Where a comma stays** only the digits in front of it are looked at, as a long number. -/
theorem ungroupedAmount?_commaText (gap : Blanks)
    (hd : ∀ f ∈ d :: e :: es, ∀ c ∈ f, c.isDigit = true) (hlast : EndsInDigit d (e :: es)) :
    ungroupedAmount? (commaText d (e :: es) ++ tenThousandWon gap)
      = (longNumber? d).map fun n : Nat => .value n := by
  have hpieces := digitPieces_tenThousandWon hd gap
  have hchars : ∀ c ∈ commaText d (e :: es) ++ tenThousandWon gap,
      isNumeralChar c = true ∨ c = ',' := by
    intro c hc
    rcases List.mem_append.1 hc with hc | hc
    · exact (mem_commaText hc).imp_left fun ⟨f, hf, hc⟩ =>
        isNumeralChar_iff.2 (Or.inr (Or.inl (hd f hf c hc)))
    · exact Or.inl (isNumeralChar_tenThousandWon gap c hc)
  obtain ⟨u, hphrases⟩ := amountPhrasesFrom_commaText (b := none) gap hd hlast
  have hconnectors : ∀ m ∈ amountPhrases (commaText d (e :: es) ++ tenThousandWon gap),
      ∀ w ∈ connectors, w.isPrefixOf (m.after.dropWhile isBlank) = false := by
    intro m hm w hw
    rw [show amountPhrases _ = _ from hphrases, List.mem_singleton] at hm
    exact isPrefixOf_eq_false hw (by simp [hm])
  have hfirst : firstPhraseValue? (amountPhrases (commaText d (e :: es) ++ tenThousandWon gap))
      = none := by
    rw [show amountPhrases _ = _ from hphrases]
    rfl
  have hletter : ∀ x : Char, x.isAlpha = true → ∀ c ∈ commaText d (e :: es) ++ tenThousandWon gap,
      simpleFold c ≠ x := fun x hx c hc => simpleFold_ne_of_numeralChar_or_comma (hchars c hc) hx
  have hbare : bareNumberIn? (commaText d (e :: es) ++ tenThousandWon gap) = longNumber? d := by
    have hread := bareNumber?_runMatch (b := none) (c := ',') rfl (e := []) (by simp) (by decide)
      (by decide) (by decide) d (commaText e es ++ tenThousandWon gap)
    rw [List.nil_append] at hread
    rw [bareNumberIn?_eq_from, bareNumberFrom?_commaText hpieces, hread,
      bareNumberFrom?_comma hpieces.tail (isDecimal_tenThousandWon gap), Option.or_none,
      longNumber?]
  rw [ungroupedAmount?]
  simp only [phraseInterval?_eq_none hconnectors,
    millionsInterval?_eq_none_of_ne (hletter 'b' (by decide)),
    find?_millions_eq_none (hletter 'm' (by decide)), hfirst, hbare, Option.none_or]
  cases longNumber? d <;> rfl

/-! ## Numbers with commas -/

/-- Digits with commas between them. The pieces between two commas may be empty, but not the first
and the last one. -/
structure GroupedNumber where
  /-- The digits in front of the first comma. -/
  lead : Text
  groups : List Text
  value : Nat
  spelled : (lead ++ groups.flatten).toNat? = some value
  lead_ne : lead ≠ []
  groups_ne : groups ≠ []
  last_ne : EndsInDigit lead groups

namespace GroupedNumber

variable (x : GroupedNumber)

/-- How it is written. -/
def text : Text := commaText x.lead x.groups

/-- All its digits. -/
def figures : Text := x.lead ++ x.groups.flatten

/-- The digits in front of the first comma that stays. -/
def front : Text := x.lead ++ (x.groups.takeWhile fun e => 3 ≤ e.length).flatten

/-- Up to three digits, and groups of three digits. -/
def WellGrouped : Prop := x.lead.length ≤ 3 ∧ ∀ e ∈ x.groups, e.length = 3

instance : Decidable x.WellGrouped := inferInstanceAs (Decidable (_ ∧ _))

theorem isDigit : ∀ e ∈ x.lead :: x.groups, ∀ c ∈ e, c.isDigit = true := by
  obtain ⟨-, hdigit⟩ := isDigit_of_toNat? x.spelled
  rintro e he c hc
  refine hdigit c ?_
  rcases List.mem_cons.1 he with rfl | he
  · exact List.mem_append_left _ hc
  · exact List.mem_append_right _ (List.mem_flatten.2 ⟨e, he, hc⟩)

end GroupedNumber

/-- The text consists of digits and commas, begins and ends with a digit, and has a comma. -/
structure IsCommaRun (r : Text) : Prop where
  chars : ∀ c ∈ r, c.isDigit = true ∨ c = ','
  first : ∃ c ∈ r.head?, c.isDigit = true
  last : ∃ c ∈ r.getLast?, c.isDigit = true
  comma : ',' ∈ r

/-- Digits and commas are pieces of digits with commas between them. -/
theorem exists_commaText {r : Text} (h : ∀ c ∈ r, c.isDigit = true ∨ c = ',') :
    ∃ d ds, commaText d ds = r ∧ ∀ e ∈ d :: ds, ∀ c ∈ e, c.isDigit = true := by
  induction r with
  | nil => exact ⟨[], [], rfl, by simp⟩
  | cons c r ih =>
    obtain ⟨hc, hr⟩ := List.forall_mem_cons.1 h
    obtain ⟨d, ds, rfl, hdigit⟩ := ih hr
    rcases hc with hc | rfl
    · obtain ⟨hd, hds⟩ := List.forall_mem_cons.1 hdigit
      exact ⟨c :: d, ds, rfl, List.forall_mem_cons.2 ⟨List.forall_mem_cons.2 ⟨hc, hd⟩, hds⟩⟩
    · exact ⟨[], d :: ds, rfl, List.forall_mem_cons.2 ⟨by simp, hdigit⟩⟩

/-- Such a text does not end with a comma unless its last piece is empty. -/
theorem endsInDigit_of_getLast? (h : (commaText d ds).getLast? ≠ some ',')
    (hd : commaText d ds ≠ []) :
    EndsInDigit d ds := by
  induction ds generalizing d with
  | nil => exact commaText_nil d ▸ hd
  | cons e es ih =>
    refine endsInDigit_cons.2 ?_
    rw [commaText_cons, List.getLast?_append, List.getLast?_cons] at h
    by_cases hnil : commaText e es = []
    · rw [hnil] at h
      exact absurd rfl h
    · refine ih (fun hlast => h ?_) hnil
      rw [hlast]
      rfl

/-- **Every run** of digits and commas is a number with commas. -/
theorem IsCommaRun.exists_text_eq {r : Text} (h : IsCommaRun r) :
    ∃ x : GroupedNumber, x.text = r := by
  obtain ⟨d, ds, rfl, hdigit⟩ := exists_commaText h.chars
  have hd : d ≠ [] := by
    rintro rfl
    obtain ⟨c, hc, hdigit⟩ := h.first
    cases ds with
    | nil => exact absurd hc (by simp [commaText])
    | cons e es =>
      obtain rfl : ',' = c := by simpa [commaText_cons] using hc
      exact absurd hdigit (by decide)
  have hds : ds ≠ [] := by
    rintro rfl
    exact absurd (hdigit d List.mem_cons_self ',' (commaText_nil d ▸ h.comma)) (by decide)
  have hlast : EndsInDigit d ds := by
    refine endsInDigit_of_getLast? (fun hcomma => ?_) (List.append_ne_nil_of_left_ne_nil hd _)
    obtain ⟨c, hc, hdigit⟩ := h.last
    obtain rfl : ',' = c := Option.some.inj (hcomma.symm.trans hc)
    exact absurd hdigit (by decide)
  obtain ⟨n, hn⟩ :=
      exists_toNat? (d := d ++ ds.flatten) (List.append_ne_nil_of_left_ne_nil hd _) <| by
    intro c hc
    rcases List.mem_append.1 hc with hc | hc
    · exact hdigit d List.mem_cons_self c hc
    · obtain ⟨e, he, hc⟩ := List.mem_flatten.1 hc
      exact hdigit e (List.mem_cons_of_mem d he) c hc
  exact ⟨⟨d, ds, n, hn, hd, hds, hlast⟩, rfl⟩

/-- What is read of a number with commas in front of 만원. -/
theorem GroupedNumber.amountIn?_text (x : GroupedNumber) (gap : Blanks) :
    amountIn? (x.text ++ tenThousandWon gap) =
      if ∀ e ∈ x.groups, 3 ≤ e.length then
        ((amountUpToMax? (x.value * 10000)).or (longNumber? x.figures)).map fun n : Nat => .value n
      else (longNumber? x.front).map fun n : Nat => .value n := by
  have hpieces := digitPieces_tenThousandWon x.isDigit gap
  obtain ⟨b', hungroup⟩ := hpieces.ungroupFrom_commaText (b := none)
  rw [ungroupFrom_of_not (isDecimal_tenThousandWon gap)] at hungroup
  rw [amountIn?, ungroupDigits_eq, text, hungroup, joinedText]
  have hfst := joinGroups_fst x.groups x.lead_ne
  split
  · next hall =>
    have htake : (x.groups.takeWhile fun e => 3 ≤ e.length) = x.groups :=
      List.takeWhile_eq_self_iff.2 (by simpa using hall)
    rw [(joinGroups_snd_eq_nil_iff x.lead_ne).2 hall, commaText_nil, hfst, htake, ← figures,
      ungroupedAmount?_tenThousands (d := x.figures) x.spelled]
  · next hall =>
    obtain ⟨f, fs, hrest⟩ := List.exists_cons_of_ne_nil
      ((joinGroups_snd_eq_nil_iff x.lead_ne).not.2 hall)
    have hdigit := forall_joinGroups x.isDigit
    have hlast := x.last_ne.join
    rw [hrest] at hdigit hlast ⊢
    rw [ungroupedAmount?_commaText gap hdigit hlast, hfst, front]

/-- **Digits with commas in front of 만원.** Up to three digits with groups of three behind them are
read. In general all commas go if three digits or more stand behind each, and the number is read as
one without commas; else the digits in front of the first comma that stays are read as a long
number. -/
theorem amountIn?_grouped (r : Text) (x : GroupedNumber) (gap : Blanks) :
    (IsCommaRun r → ∃ y : GroupedNumber, y.text = r) ∧
    (x.WellGrouped → x.value * 10000 ≤ maxAmount →
      amountIn? (x.text ++ tenThousandWon gap) = some (.value ↑(x.value * 10000))) ∧
    amountIn? (x.text ++ tenThousandWon gap) =
      if ∀ e ∈ x.groups, 3 ≤ e.length then
        ((amountUpToMax? (x.value * 10000)).or (longNumber? x.figures)).map fun n : Nat => .value n
      else (longNumber? x.front).map fun n : Nat => .value n := by
  refine ⟨fun hr => hr.exists_text_eq, fun hgrouped hle => ?_, x.amountIn?_text gap⟩
  rw [x.amountIn?_text gap, if_pos fun e he => (hgrouped.2 e he).ge, amountUpToMax?_of_le hle]
  rfl

/-- The number `5,000`. -/
def GroupedNumber.fiveThousand : GroupedNumber where
  lead := "5"
  groups := ["000"]
  value := 5000
  spelled := by decide
  lead_ne := by decide
  groups_ne := by decide
  last_ne := by decide

/-- The number `1234,567`. -/
def GroupedNumber.crooked : GroupedNumber where
  lead := "1234"
  groups := ["567"]
  value := 1234567
  spelled := by decide
  lead_ne := by decide
  groups_ne := by decide
  last_ne := by decide

/-- `5,000` is a number with commas, and `5,000만원` is read. -/
theorem amountIn?_grouped_fiveThousand :
    (∃ x : GroupedNumber, x.text = "5,000") ∧
      amountIn? "5,000만원" = some (.value 50000000) := by
  obtain ⟨hrun, hread, -⟩ := amountIn?_grouped "5,000" .fiveThousand .none
  refine ⟨hrun ⟨by decide, ⟨'5', rfl, by decide⟩, ⟨'0', rfl, by decide⟩, by decide⟩, ?_⟩
  exact hread (by decide) (by decide)

/-- Digits with commas that are not well grouped are not always left alone. -/
theorem not_amountIn?_grouped_none :
    ¬ ∀ x : GroupedNumber, ¬ x.WellGrouped →
      amountIn? (x.text ++ tenThousandWon .none) = none := fun h =>
  absurd (h .crooked (by decide)) (by decide +kernel)

end SqlScribe
