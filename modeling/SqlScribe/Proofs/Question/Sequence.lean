import SqlScribe.Proofs.Question.Phrase

/-!
# Phrases in a row

The amount of a text that is made of phrases and nothing else. Such a text has no grouped numbers
and no words for millions, so that only its phrases and the connectors between them count. Main
statements:

* `ungroupDigits_eq_self`, `millionsInterval?_eq_none`: what a text of numerals does not have;
* `amountIn?_text_append`: a number without a unit behind a phrase is not part of it.
-/

namespace SqlScribe

open Pattern CountedUnit

variable {b : Option Char} {t r : Text}

/-! ## Characters of numerals -/

/-- A character that numerals and amounts in won are written with. -/
def isNumeralChar (c : Char) : Bool := isBlank c || c.isDigit || unitMarks.contains c || c == '원'

theorem isNumeralChar_iff {c : Char} : isNumeralChar c = true ↔
    isBlank c = true ∨ c.isDigit = true ∨ c ∈ unitMarks ∨ c = '원' := by
  simp only [isNumeralChar, Bool.or_eq_true, List.contains_iff_mem, beq_iff_eq, or_assoc]

theorem ne_comma_of_isNumeralChar {c : Char} (h : isNumeralChar c = true) : c ≠ ',' := by
  rintro rfl
  exact absurd h (by decide)

theorem isAlpha_of_isNumeralChar {c : Char} (h : isNumeralChar c = true) : c.isAlpha = false := by
  refine Bool.eq_false_iff.2 fun halpha => ?_
  rcases isNumeralChar_iff.1 h with hblank | hdigit | hmark | rfl
  · exact Bool.false_ne_true ((isBlank_of_isAlpha halpha).symm.trans hblank)
  · have hcode := isDigit_iff.1 hdigit
    rcases isAlpha_iff.1 halpha with hupper | hlower
    · have := isUpper_iff.1 hupper
      omega
    · have := isLower_iff.1 hlower
      omega
  · have hall : ∀ c ∈ unitMarks, c.isAlpha = false := by decide
    exact Bool.false_ne_true ((hall c hmark).symm.trans halpha)
  · exact absurd halpha (by decide)

/-- Numerals have no form of a letter. -/
theorem isAlpha_simpleFold_of_isNumeralChar {c : Char} (h : isNumeralChar c = true) :
    (simpleFold c).isAlpha = false := by
  have halpha := isAlpha_of_isNumeralChar h
  have hupper : c.isUpper = false := Bool.eq_false_iff.2 fun hupper =>
    Bool.false_ne_true (halpha.symm.trans (isAlpha_iff.2 (Or.inl hupper)))
  rw [simpleFold_of_class (p := isNumeralChar) (by decide) (by decide) h,
    toLower_of_not_isUpper hupper, halpha]

theorem CountedUnit.isNumeralChar_text {w : CountedUnit} (hu : w.unit ∈ numeralUnits) :
    ∀ c ∈ w.text, isNumeralChar c = true := by
  have hname : ∀ u ∈ numeralUnits, ∀ c ∈ u.name, c ∈ unitMarks := by decide
  intro c hc
  rw [isNumeralChar_iff]
  simp only [text, List.mem_append] at hc
  rcases hc with hc | hc | hc | hc
  · exact Or.inl (w.lead.blank c hc)
  · exact Or.inr (Or.inl (w.digits_isDigit c hc))
  · exact Or.inl (w.gap.blank c hc)
  · exact Or.inr (Or.inr (Or.inl (hname _ hu c hc)))

theorem NumeralPhrase.isNumeralChar_text (p : NumeralPhrase) :
    ∀ c ∈ p.text, isNumeralChar c = true := by
  intro c hc
  rw [p.text_eq] at hc
  obtain ⟨w, hw, hc⟩ := List.mem_flatMap.1 hc
  have hapart : Apart [] p.read := p.apart fun _ => by simp
  exact CountedUnit.isNumeralChar_text (hapart.unit_mem hw) c hc

/-! ## What a text of numerals does not have -/

/-- Without commas there are no grouped numbers. -/
theorem ungroupDigits_of_not_mem (h : ',' ∉ t) : ungroupDigits t = t := by
  refine replaceAll_eq_self_of_hits fun m hm => ?_
  obtain ⟨v, w, ht, hvw⟩ := matchAt?_of_mem_pieces hm
  have hof := isOf_of_matchAt? hvw
  obtain ⟨c, hc, k, hk, hhas⟩ := exists_asked (f := (· == .among [','])) (by decide) hof.spells
  rw [beq_iff_eq.1 hk] at hhas
  obtain rfl : c = ',' := by simpa [CharClass.has] using hhas
  exact absurd (ht ▸ List.mem_append_right v (hof.mem_of_mem_text hc)) h

theorem ungroupDigits_eq_self (h : ∀ c ∈ t, isNumeralChar c = true) : ungroupDigits t = t :=
  ungroupDigits_of_not_mem fun hmem => ne_comma_of_isNumeralChar (h _ hmem) rfl

/-- What is not a form of the letter is not of its class. -/
theorem has_eq_false_of_simpleFold {c x : Char} (h : simpleFold c ≠ simpleFold x) :
    ∀ k, (k == CharClass.letter x) = true → k.has c = false := by
  intro k hk
  rw [beq_iff_eq.1 hk]
  exact beq_eq_false_iff_ne.2 (Ne.symm h)

/-- Where no form of `b` stands there is no interval of millions. -/
theorem millionsInterval?_eq_none_of_ne (h : ∀ c ∈ t, simpleFold c ≠ 'b') :
    millionsInterval? t = none := by
  have hnil : AmountPattern.betweenMillions.findAll t = [] :=
    findAll_eq_nil (f := (· == .letter 'b')) (by decide) fun c hc =>
      has_eq_false_of_simpleFold (h c hc)
  rw [millionsInterval?, find?, hnil]
  rfl

/-- Without letters there is no interval of millions. -/
theorem millionsInterval?_eq_none (h : ∀ c ∈ t, isNumeralChar c = true) :
    millionsInterval? t = none :=
  millionsInterval?_eq_none_of_ne fun c hc hfold =>
    absurd (hfold ▸ isAlpha_simpleFold_of_isNumeralChar (h c hc)) (by decide)

/-! ## Connectors -/

/-- A phrase is not connected if no connector follows it. -/
theorem Match.connected?_eq_none {m : Match} {w : Text}
    (h : w.isPrefixOf (m.after.dropWhile isBlank) = false) : m.connected? w = none := by
  rw [Match.connected?, Option.map_eq_none_iff]
  refine matchAt?_eq_none_of_first ?_
  rw [AmountPattern.connected, first_append, first_append, first_append, blanks, first_run,
    first_literal_eq]
  exact if_neg (by rw [← Bool.not_eq_true] at h; exact h)

/-- Phrases behind which no connector stands are no interval. -/
theorem phraseInterval?_eq_none {ms : List Match}
    (h : ∀ m ∈ ms, ∀ w ∈ connectors, w.isPrefixOf (m.after.dropWhile isBlank) = false) :
    phraseInterval? ms = none := by
  refine List.findSome?_eq_none_iff.2 fun w hw => ?_
  have hnone : connectedPhrases? w ms = none := List.findSome?_eq_none_iff.2 fun m hm => by
    rw [Match.connected?_eq_none (h m hm w hw)]
    rfl
  rw [hnone]
  rfl

/-- The characters that connectors begin with. -/
def connectorMarks : Text := "에부~-"

theorem isPrefixOf_connector_eq_false {w : Text} (hw : w ∈ connectors)
    (h : ∀ c, t.head? = some c → c ∉ connectorMarks) : w.isPrefixOf t = false := by
  have hall : ∀ w ∈ connectors, w.head?.any (connectorMarks.contains ·) = true := by decide
  obtain ⟨c, hc, hmark⟩ := (Option.any_eq_true ..).1 (hall w hw)
  obtain ⟨s, rfl⟩ := List.head?_eq_some_iff.1 hc
  refine Bool.eq_false_iff.2 fun hprefix => ?_
  obtain ⟨r, rfl⟩ := List.isPrefixOf_iff_prefix.1 hprefix
  exact h c rfl (List.contains_iff_mem.1 hmark)

theorem not_mem_connectorMarks {c : Char} (h : isNumeralChar c = true) : c ∉ connectorMarks := by
  have hall : ∀ c ∈ connectorMarks, isNumeralChar c = false := by decide
  exact fun hc => Bool.false_ne_true ((hall c hc).symm.trans h)

/-- A numeral does not begin with a connector. -/
theorem isPrefixOf_eq_false {w : Text} (hw : w ∈ connectors)
    (h : ∀ c, t.head? = some c → isNumeralChar c = true) : w.isPrefixOf t = false :=
  isPrefixOf_connector_eq_false hw fun c hc => not_mem_connectorMarks (h c hc)

/-! ## A phrase and a number behind it -/

/-- No unit stands behind a number with the sign of the currency. -/
theorem unitAt?_behindCount_won {d : Text} (hd : ∀ c ∈ d, c.isDigit = true) (hne : d ≠ [])
    (sep gap : Blanks) : unitAt? (behindCount (sep.text ++ (d ++ (gap.text ++ ['원'])))) = none := by
  have hhead : ∀ c, (d ++ (gap.text ++ ['원'])).head? = some c → isBlank c = false := by
    intro c hc
    rw [List.head?_append_of_ne_nil _ hne] at hc
    exact isBlank_of_isDecimal (isDecimal_of_isDigit (hd c (List.mem_of_head? hc)))
  have hsign : ∀ c, (gap.text ++ ['원']).head? = some c → isDecimal c = false := by
    intro c hc
    rcases List.mem_append.1 (List.mem_of_head? hc) with hc | hc
    · exact isDecimal_of_isBlank (gap.blank c hc)
    · exact List.mem_singleton.1 hc ▸ isDecimal_of_mem_nonDigits (by decide)
  rw [behindCount, List.dropWhile_append_of_pos sep.blank, dropWhile_eq_self_of_head hhead,
    behindDigits, List.dropWhile_append_of_pos fun c hc => isDecimal_of_isDigit (hd c hc),
    dropWhile_eq_self_of_head hsign, List.dropWhile_append_of_pos gap.blank]
  decide

/-- A phrase is followed by a number with the sign of the currency: both are found. -/
theorem amountPhrases_text_append (p : NumeralPhrase) (sep gap : Blanks) (k : Count) :
    amountPhrases (p.text ++ (sep.text ++ (k.digits ++ (gap.text ++ ['원'])))) =
      [⟨none, p.text ++ sep.text, [], k.digits ++ (gap.text ++ ['원'])⟩,
        ⟨(p.text ++ sep.text).getLast?, k.digits ++ (gap.text ++ ['원']), [], []⟩] := by
  obtain ⟨hne, hdigit⟩ := k.digits_isDigit
  have hstop := unitAt?_behindCount_won hdigit hne sep gap
  have hnumber := AmountPattern.matchAt?_won (b := (p.text ++ sep.text).getLast?) (r := []) hne
    (fun c hc => isDecimal_of_isDigit (hdigit c hc)) gap
  have hhead : ∀ c, (k.digits ++ (gap.text ++ ['원'])).head? = some c → c.isDigit = true := by
    intro c hc
    rw [List.head?_append_of_ne_nil _ hne] at hc
    exact hdigit c (List.mem_of_head? hc)
  generalize k.digits ++ (gap.text ++ ['원']) = number at hstop hnumber hhead ⊢
  have hphrase : AmountPattern.phrase.matchAt? none ((p.text ++ sep.text) ++ number)
      = some ⟨none, p.text ++ sep.text, [], number⟩ := by
    have hmatch := AmountPattern.matchAt?_text (b := none) (r := number) p sep false
      (fun _ c hc => ⟨isBlank_of_isDecimal (isDecimal_of_isDigit (hhead c hc)), by
        rintro rfl
        exact absurd (hhead _ hc) (by decide)⟩) hstop
    rw [AmountPattern.wonSign, if_neg Bool.false_ne_true, List.nil_append, List.append_nil,
      ← List.append_assoc] at hmatch
    exact hmatch
  have hlast := piecesFrom_hit (u := number) (r := []) (by rwa [List.append_nil]) rfl
  rw [List.append_nil] at hlast
  rw [← List.append_assoc, amountPhrases, findAll, pieces, piecesFrom_hit hphrase rfl,
    Option.or_none, hlast]
  rfl

/-- **A number without a unit behind a phrase** is not part of it, and it does not keep the phrase
from being read: the amount is that of the phrase alone. -/
theorem amountIn?_text_append (p : NumeralPhrase) (hp : p.value ≤ maxAmount) (sep gap : Blanks)
    (k : Count) : amountIn? (p.text ++ (sep.text ++ (k.digits ++ (gap.text ++ ['원']))))
      = some (.value p.value) := by
  have hchars : ∀ c ∈ p.text ++ (sep.text ++ (k.digits ++ (gap.text ++ ['원']))),
      isNumeralChar c = true := by
    intro c hc
    simp only [List.mem_append, List.mem_singleton] at hc
    rcases hc with hc | hc | hc | hc | rfl
    · exact p.isNumeralChar_text c hc
    · exact isNumeralChar_iff.2 (Or.inl (sep.blank c hc))
    · exact isNumeralChar_iff.2 (Or.inr (Or.inl (k.digits_isDigit.2 c hc)))
    · exact isNumeralChar_iff.2 (Or.inl (gap.blank c hc))
    · decide
  have hfollowing : ∀ m ∈ amountPhrases (p.text ++ (sep.text ++ (k.digits ++ (gap.text ++ ['원'])))),
      ∀ w ∈ connectors, w.isPrefixOf (m.after.dropWhile isBlank) = false := by
    intro m hm w hw
    refine isPrefixOf_eq_false hw fun c hc => hchars c ?_
    obtain ⟨v, s, ht, hof⟩ := isOf_of_mem_findAll hm
    rw [ht, ← hof.text_append]
    exact List.mem_append_right _ (List.mem_append_right _
      ((List.dropWhile_suffix _).subset (List.mem_of_head? hc)))
  have hfirst : firstPhraseValue? (amountPhrases
      (p.text ++ (sep.text ++ (k.digits ++ (gap.text ++ ['원']))))) = some p.value := by
    have hvalue : phraseValue? (p.text ++ sep.text) = some p.value :=
      (p.phraseValue?_text_ending fun c hc hmark => Bool.false_ne_true
        ((isBlank_of_mem_unitMarks hmark).symm.trans (sep.blank c hc))).trans
        (amountUpToMax?_of_le hp)
    rw [amountPhrases_text_append, firstPhraseValue?, List.filter_cons_of_pos (by rfl),
      List.findSome?_cons_of_isSome (by rw [hvalue]; rfl), hvalue]
  rw [amountIn?, ungroupDigits_eq_self hchars, ungroupedAmount?]
  simp only [phraseInterval?_eq_none hfollowing, millionsInterval?_eq_none hchars, Option.or_none,
    hfirst]

/-- The phrase `3만`. -/
def NumeralPhrase.thirtyThousand : NumeralPhrase where
  groups := [⟨[], ⟨.none, some ⟨"3", 3, by decide, by decide⟩, .none, .tenThousand⟩,
    CountedUnit.small_nil, by decide⟩]
  rest := []
  small := CountedUnit.small_nil
  decreasing := by decide
  counted := ⟨_, rfl, rfl, rfl⟩

/-- The number `5000`. -/
def Count.fiveThousand : Count := ⟨"5000", 5000, by decide, by decide⟩

/-- In `3만5000원` only 3만 is read. -/
theorem amountIn?_thirtyThousand_append :
    amountIn? (NumeralPhrase.thirtyThousand.text ++
      (Blanks.none.text ++ (Count.fiveThousand.digits ++ (Blanks.none.text ++ ['원']))))
        = some (.value 30000) :=
  amountIn?_text_append NumeralPhrase.thirtyThousand (by decide) Blanks.none Blanks.none
    Count.fiveThousand

/-- A phrase with a number behind it is not always read whole or not at all. -/
theorem not_amountIn?_text_append_whole :
    ¬ ∀ (p : NumeralPhrase) (g : NumeralGroup) (k : Count) (sep : Blanks), p.rest = [] →
      p.groups.getLast? = some g → k.value < g.size → p.value + k.value ≤ maxAmount →
        amountIn? (p.text ++ (sep.text ++ (k.digits ++ ['원']))) = none ∨
          amountIn? (p.text ++ (sep.text ++ (k.digits ++ ['원'])))
            = some (.value ↑(p.value + k.value)) := by
  intro h
  exact absurd (h .thirtyThousand _ .fiveThousand .none rfl rfl (by decide) (by decide))
    (by decide +kernel)

end SqlScribe
