import SqlScribe.Proofs.Question.PlainNumeral

/-!
# Amounts that are too large

A phrase that is worth too much is no amount, but the search goes on behind it and comes upon the
numbers that are written in it. Main statements:

* `WholeAmount.amountIn?_eq`: what is read of a text that is one phrase;
* `amountIn?_millions`: what is read of a number of millions;
* `amountIn?_overflow`: what is read of an amount that is too large.
-/

namespace SqlScribe

open Pattern CountedUnit

variable {b : Option Char} {r t : Text} {n : Nat}

/-! ## Texts that are one phrase -/

/-- The text is a phrase of the value, and these are the numbers in it. -/
structure WholeAmount (t : Text) (value : Nat) (numbers : List Text) : Prop where
  chars : ∀ c ∈ t, isNumeralChar c = true
  found : AmountPattern.phrase.matchAt? none t = some ⟨none, t, [], []⟩
  read : phraseValue? t = amountUpToMax? value
  long : bareNumberIn? t = numbers.findSome? longNumber?

/-- There are no millions where no form of `m` stands. -/
theorem find?_millions_eq_none (h : ∀ c ∈ t, simpleFold c ≠ 'm') :
    AmountPattern.millions.find? t = none := by
  have hnil : AmountPattern.millions.findAll t = [] :=
    findAll_eq_nil (f := (· == .letter 'm')) (by decide) fun c hc =>
      has_eq_false_of_simpleFold (h c hc)
  rw [find?, hnil]
  rfl

/-- **A text that is one phrase** is read, or the first long number in it. -/
theorem WholeAmount.amountIn?_eq {numbers : List Text} (h : WholeAmount t n numbers) : amountIn? t =
    ((amountUpToMax? n).or (numbers.findSome? longNumber?)).map fun n : Nat => .value n := by
  have hphrases : amountPhrases t = [⟨none, t, [], []⟩] := by
    have hpieces := piecesFrom_hit (u := t) (r := []) (by rw [List.append_nil]; exact h.found) rfl
    rw [List.append_nil] at hpieces
    rw [amountPhrases, findAll, pieces, hpieces]
    rfl
  have hconnectors : ∀ m ∈ amountPhrases t, ∀ w ∈ connectors,
      w.isPrefixOf (m.after.dropWhile isBlank) = false := by
    intro m hm w hw
    rw [hphrases, List.mem_singleton] at hm
    exact isPrefixOf_eq_false hw (by simp [hm])
  have hfirst : firstPhraseValue? (amountPhrases t) = amountUpToMax? n := by
    rw [hphrases, firstPhraseValue?, List.filter_cons_of_pos (by rfl), List.filter_nil,
      List.findSome?_singleton, h.read]
  have hmillions : AmountPattern.millions.find? t = none := find?_millions_eq_none fun c hc hfold =>
    absurd (hfold ▸ isAlpha_simpleFold_of_isNumeralChar (h.chars c hc)) (by decide)
  rw [amountIn?, ungroupDigits_eq_self h.chars, ungroupedAmount?]
  simp only [phraseInterval?_eq_none hconnectors, millionsInterval?_eq_none h.chars, Option.or_none,
    hfirst, hmillions, h.long]
  cases amountUpToMax? n <;> cases numbers.findSome? longNumber? <;> rfl

theorem isDecimal_won (gap : Blanks) : ∀ c ∈ gap.text ++ ['원'], isDecimal c = false := fun c hc =>
  (List.mem_append.1 hc).elim (fun hc => isDecimal_of_isBlank (gap.blank c hc))
    fun hc => List.mem_singleton.1 hc ▸ isDecimal_of_mem_nonDigits (by decide)

theorem PlainNumeral.whole (p : PlainNumeral) :
    WholeAmount p.text p.value (p.terms.map PlainTerm.digits) where
  chars := p.isNumeralChar_text
  found := p.matchAt?_text
  read := p.phraseValue?_plain
  long := by
    obtain ⟨b', -, hplain⟩ := bareNumberFrom?_plain p.terms (b := none) rfl p.ending
    have hending : ∀ c ∈ p.ending, isDecimal c = false := by
      rw [ending]
      cases p.won with
      | none => simp
      | some gap => exact isDecimal_won gap
    rw [bareNumberIn?_eq_from, text, hplain, bareNumberFrom?_eq_none hending, Option.or_none]

/-! ## Amounts as they are written -/

/-- **The counts of units** are long numbers or passed. -/
theorem bareNumberFrom?_words {ws : List CountedUnit} (hws : ∀ w ∈ ws, w.unit ∈ numeralUnits)
    (hb : StandsFree b) (r : Text) : ∃ b', StandsFree b' ∧ bareNumberFrom? b (textOf ws ++ r)
      = ((ws.map digits).findSome? longNumber?).or (bareNumberFrom? b' r) := by
  induction ws generalizing b with
  | nil => exact ⟨b, hb, rfl⟩
  | cons w ws ih =>
    obtain ⟨hw, hws⟩ := List.forall_mem_cons.1 hws
    obtain ⟨b₁, hb₁, hfirst⟩ := bareNumberFrom?_counted w.lead.blank w.digits_isDigit
      w.gap.blank hw hb
      (textOf ws ++ r)
    obtain ⟨b₂, hb₂, hrest⟩ := ih hws hb₁
    have htext : textOf (w :: ws) ++ r
        = w.lead.text ++ (w.digits ++ (w.gap.text ++ (w.unit.name ++ (textOf ws ++ r)))) := by
      simp only [textOf, List.flatMap_cons, CountedUnit.text, List.append_assoc]
    refine ⟨b₂, hb₂, ?_⟩
    rw [htext, hfirst, hrest, List.map_cons, List.findSome?_cons]
    cases longNumber? w.digits <;> rfl

theorem NumeralPhrase.unit_mem_words (p : NumeralPhrase) :
    ∀ w ∈ p.words, w.unit ∈ numeralUnits := by
  intro w hw
  rcases List.mem_append.1 hw with hw | hw
  · obtain ⟨g, -, hw⟩ := List.mem_flatMap.1 hw
    rcases List.mem_append.1 hw with hw | hw
    · exact mem_numeralUnits_of_small (g.small w hw)
    · exact List.mem_singleton.1 hw ▸ mem_numeralUnits_of_group g.closes
  · exact mem_numeralUnits_of_small (p.small w hw)

namespace SpokenAmount

/-- The numbers that are written in an amount. -/
def counts : SpokenAmount → List Text
  | numeral p _ => p.words.map CountedUnit.digits
  | number d _ _ _ => [d]

/-- The long number in an amount is the first of its numbers that is one. -/
theorem bareNumberIn?_text (x : SpokenAmount) :
    bareNumberIn? x.text = x.counts.findSome? longNumber? := by
  rw [bareNumberIn?_eq_from]
  cases x with
  | numeral p won =>
    obtain ⟨e, he, htext⟩ : ∃ e : Text, (∀ c ∈ e, isDecimal c = false) ∧
        (numeral p won).text = textOf p.words ++ e := by
      cases won with
      | none => exact ⟨[], by simp, (List.append_nil _).symm⟩
      | some gap => exact ⟨_, isDecimal_won gap, rfl⟩
    obtain ⟨b', -, hwords⟩ := bareNumberFrom?_words p.unit_mem_words (b := none) rfl e
    rw [htext, hwords, bareNumberFrom?_eq_none he, Option.or_none, counts]
  | number d n hd gap =>
    obtain ⟨-, hdigit⟩ := isDigit_of_toNat? hd
    have hhead : ∀ c, (gap.text ++ ['원']).head? = some c → isDecimal c = false := fun c hc =>
      isDecimal_won gap c (List.mem_of_head? hc)
    rw [text, bareNumberFrom?_digits (fun c hc => isDecimal_of_isDigit (hdigit c hc)) hhead,
      bareNumber?_counted (b := none) rfl gap.blank (Or.inr rfl),
      bareNumberFrom?_eq_none (isDecimal_won gap), Option.or_none, counts, List.findSome?_singleton,
      longNumber?]

theorem whole (x : SpokenAmount) : WholeAmount x.text x.value x.counts where
  chars := x.isNumeralChar_text
  found := by
    obtain ⟨f, g, hfg, hmatch⟩ := x.matchAt?_text (b := none) (r := []) (by simp [EndsAmount]) .none
    obtain ⟨hf, hg⟩ := List.append_eq_nil_iff.1 hfg.symm
    rwa [hf, hg, Blanks.none, List.append_nil, List.append_nil] at hmatch
  read := by
    have hvalue := x.phraseValue?_spoken .none
    rwa [Blanks.none, List.append_nil] at hvalue
  long := x.bareNumberIn?_text

end SpokenAmount

/-! ## Millions -/

/-- How millions are written, in any case. -/
def millionWord : Text := "million"

/-- Characters of a number of millions. -/
def IsMillionsChar (c : Char) : Prop :=
  isBlank c = true ∨ c.isDigit = true ∨ simpleFold c ∈ millionWord

theorem isMillionsChar_text {d g : Text} (hd : ∀ c ∈ d, c.isDigit = true) (gap : Blanks)
    (hg : SameLetters g millionWord) : ∀ c ∈ d ++ (gap.text ++ g), IsMillionsChar c := by
  intro c hc
  simp only [List.mem_append] at hc
  rcases hc with hc | hc | hc
  · exact Or.inr (Or.inl (hd c hc))
  · exact Or.inl (gap.blank c hc)
  · have hfold : simpleFold c ∈ g.map simpleFold := List.mem_map_of_mem hc
    rw [hg] at hfold
    exact Or.inr (Or.inr hfold)

/-- The only letters of a number of millions are those of the word. -/
theorem IsMillionsChar.simpleFold_ne {c x : Char} (h : IsMillionsChar c) (hx : x ∉ millionWord)
    (halpha : x.isAlpha = true) : simpleFold c ≠ x := by
  rintro rfl
  have hchar : ∀ {p : Prop}, isNumeralChar c = true → p := fun hc =>
    absurd ((isAlpha_simpleFold_of_isNumeralChar hc).symm.trans halpha) Bool.false_ne_true
  rcases h with h | h | h
  · exact hchar (isNumeralChar_iff.2 (Or.inl h))
  · exact hchar (isNumeralChar_iff.2 (Or.inr (Or.inl h)))
  · exact hx h

/-- A number of millions has neither commas nor characters of units and the currency. -/
theorem IsMillionsChar.not_mem {c : Char} (h : IsMillionsChar c) : c ∉ ',' :: '원' :: unitMarks := by
  have hall : ∀ c ∈ ',' :: '원' :: unitMarks, isBlank c = false ∧ c.isDigit = false ∧
      simpleFold c ∉ millionWord := by decide
  intro hmem
  obtain ⟨hblank, hdigit, hletter⟩ := hall c hmem
  rcases h with h | h | h
  · exact Bool.false_ne_true (hblank.symm.trans h)
  · exact Bool.false_ne_true (hdigit.symm.trans h)
  · exact hletter h

/-- Classes of the characters of units and of the currency. -/
def CharClass.isUnitClass : CharClass → Bool
  | .among cs => cs.all fun c => ('원' :: unitMarks).contains c
  | _ => false

/-- There are no phrases in a number of millions. -/
theorem amountPhrases_millions (h : ∀ c ∈ t, IsMillionsChar c) : amountPhrases t = [] := by
  refine findAll_eq_nil (f := CharClass.isUnitClass) (by decide) fun c hc k hk => ?_
  refine Bool.eq_false_iff.2 fun hhas => ?_
  cases k with
  | among cs =>
    have hmem := List.all_eq_true.1 hk c (List.contains_iff_mem.1 hhas)
    exact (h c hc).not_mem (List.mem_cons_of_mem ',' (List.contains_iff_mem.1 hmem))
  | _ => exact absurd hk Bool.false_ne_true

/-- The letters of the word are characters of words and no digits. -/
theorem isWordChar_of_mem_millions {g : Text} (hg : SameLetters g millionWord) :
    ∀ c ∈ g, isWordChar c = true ∧ isDecimal c = false := by
  have hall : ∀ x ∈ millionWord, isLabelChar x = true ∧
      CharClass.avoidsDecimals (.letter x) = true ∧
      simpleFold x = x := by decide
  intro c hc
  have hfold : simpleFold c ∈ g.map simpleFold := List.mem_map_of_mem hc
  rw [hg] at hfold
  obtain ⟨hlabel, havoid, hself⟩ := hall (simpleFold c) hfold
  exact ⟨isWordChar_of_isLabelChar_simpleFold hlabel,
    CharClass.isDecimal_eq_false havoid (beq_iff_eq.2 hself)⟩

/-- **A number of millions is found whole.** -/
theorem AmountPattern.matchAt?_millions {d g : Text} (hne : d ≠ []) (hd : ∀ c ∈ d, c.isDigit = true)
    (gap : Blanks) (hg : SameLetters g millionWord) :
    millions.matchAt? b (d ++ (gap.text ++ g)) = some ⟨b, d ++ (gap.text ++ g), [(1, d)], []⟩ := by
  have hword := isWordChar_of_mem_millions hg
  have hblank : ∀ c, g.head? = some c → isBlank c = false := fun c hc =>
    Bool.eq_false_iff.2 fun hblank => Bool.false_ne_true
      ((isWordChar_of_isBlank hblank).symm.trans (hword c (List.mem_of_head? hc)).1)
  have hhead : ∀ c, (gap.text ++ g).head? = some c → isDecimal c = false := fun c hc =>
    (List.mem_append.1 (List.mem_of_head? hc)).elim
    (fun hc => isDecimal_of_isBlank (gap.blank c hc))
      fun hc => (hword c hc).2
  obtain ⟨x, hx⟩ : ∃ x, g.getLast? = some x := by
    cases hlast : g.getLast? with
    | none =>
      rw [List.getLast?_eq_none_iff.1 hlast] at hg
      exact absurd hg (by decide)
    | some x => exact ⟨x, rfl⟩
  have hedge : Anchor.holds (some x) [] .wordEdge = true := by
    rw [Anchor.holds, Option.any_some, (hword x (List.mem_of_getLast? hx)).1]
    rfl
  have hfirst : first millions ⟨b, (d ++ (gap.text ++ g)) ++ [], []⟩ some
      = some ⟨some x, [], [⟨1, d ++ (gap.text ++ g), gap.text ++ g⟩]⟩ := by
    have hletters : ∀ (K : Continuation) (b : Option Char) (cs : List Capture),
        first (letters "million") ⟨b, g ++ [], cs⟩ K = K ⟨g.getLast?.or b, [], cs⟩ := fun _ _ _ =>
      first_letters hg []
    simp only [List.append_nil] at hletters
    rw [List.append_nil, millions, first_append, first_append, first_append, first_group, digits,
      first_digits hne (fun c hc => isDecimal_of_isDigit (hd c hc)) hhead, Cursor.capture,
      first_blanks_append gap.blank hblank, hletters, hx, Option.some_or]
    exact if_pos hedge
  have hmatch := matchAt?_of_first hfirst (by simp [hne])
  rwa [List.append_nil, List.map_singleton, text_capture] at hmatch

/-- **A number of millions** is read, if it is not too large. -/
theorem amountIn?_millions {d g : Text} (hd : d.toNat? = some n) (gap : Blanks)
    (hg : SameLetters g millionWord) : amountIn? (d ++ (gap.text ++ g))
      = (amountUpToMax? (n * 1000000)).map fun n : Nat => .value n := by
  obtain ⟨hne, hdigit⟩ := isDigit_of_toNat? hd
  have hchars := isMillionsChar_text hdigit gap hg
  have hcomma : ',' ∉ d ++ (gap.text ++ g) := fun hmem =>
    (hchars _ hmem).not_mem List.mem_cons_self
  have hinterval : millionsInterval? (d ++ (gap.text ++ g)) = none :=
    millionsInterval?_eq_none_of_ne fun c hc => (hchars c hc).simpleFold_ne (by decide) (by decide)
  have hfind : AmountPattern.millions.find? (d ++ (gap.text ++ g))
      = some ⟨none, d ++ (gap.text ++ g), [(1, d)], []⟩ := by
    have hmatch := AmountPattern.matchAt?_millions (b := none) hne hdigit gap hg
    have hpieces := piecesFrom_hit (u := d ++ (gap.text ++ g)) (r := [])
      (by rw [List.append_nil]; exact hmatch) rfl
    rw [List.append_nil] at hpieces
    rw [find?, findAll, pieces, hpieces]
    rfl
  have hread : millionsOf? d = amountUpToMax? (n * 1000000) := by
    rw [millionsOf?, Text.toNatUpTo?, hd, Option.filter_some]
    by_cases hle : n ≤ maxAmount
    · rw [if_pos (by simpa using hle)]
    · rw [if_neg (by simpa using hle), amountUpToMax?_of_lt (by omega)]
  have hnone : phraseInterval? [] = none := phraseInterval?_eq_none (by simp)
  have hfirst : firstPhraseValue? [] = none := rfl
  rw [amountIn?, ungroupDigits_of_not_mem hcomma, ungroupedAmount?]
  simp only [amountPhrases_millions hchars, hnone, hinterval, hfirst, hfind, Option.none_or]
  rw [show Match.group ⟨none, d ++ (gap.text ++ g), [(1, d)], []⟩ 1 = d from rfl, hread]
  cases amountUpToMax? (n * 1000000) <;> rfl

/-! ## Amounts that are too large -/

/-- **An amount that is too large** is no amount, but a long number in it is read in its place,
unless it is too large itself. Of a number of millions nothing is read. -/
theorem amountIn?_overflow (x : SpokenAmount) (p : PlainNumeral)
    (d g : Text) (n : Nat) (gap : Blanks) :
    (maxAmount < x.value →
      amountIn? x.text = (x.counts.findSome? longNumber?).map fun n : Nat => .value n) ∧
    (maxAmount < p.value → amountIn? p.text
      = ((p.terms.map PlainTerm.digits).findSome? longNumber?).map fun n : Nat => .value n) ∧
    (d.toNat? = some n → SameLetters g millionWord → maxAmount < n * 1000000 →
      amountIn? (d ++ (gap.text ++ g)) = none) := by
  refine ⟨fun hx => ?_, fun hp => ?_, fun hd hg hn => ?_⟩
  · rw [x.whole.amountIn?_eq, amountUpToMax?_of_lt hx, Option.none_or]
  · rw [p.whole.amountIn?_eq, amountUpToMax?_of_lt hp, Option.none_or]
  · rw [amountIn?_millions hd gap hg, amountUpToMax?_of_lt hn]
    rfl

/-- The numeral `99999999999999억`. -/
def PlainNumeral.manyHundredMillions : PlainNumeral where
  terms := [⟨.none, "99999999999999", 99999999999999, by decide, .none, .hundredMillion, by decide⟩]
  decreasing := by decide
  counted := ⟨_, rfl, rfl⟩
  won := none

/-- Of `99999999999999억` the count is read, of `9999999999999999만` and so many millions nothing. -/
theorem amountIn?_overflow_manyHundredMillions :
    amountIn? "99999999999999억" = some (.value 99999999999999) ∧
      amountIn? "9223372036854775808원" = none ∧ amountIn? "9223372036855 Million" = none := by
  obtain ⟨hspoken, hplain, hmillions⟩ :=
    amountIn?_overflow (.number "9223372036854775808" 9223372036854775808 (by decide) .none)
      .manyHundredMillions "9223372036855" "Million" 9223372036855 .space
  refine ⟨?_, ?_, ?_⟩
  · exact (hplain (by decide)).trans (by decide)
  · exact (hspoken (by decide)).trans (by decide)
  · exact hmillions (by decide) (by decide) (by decide)

/-- An amount that is too large is not always no amount. -/
theorem not_amountIn?_overflow_none :
    ¬ ∀ p : PlainNumeral, maxAmount < p.value → amountIn? p.text = none := fun h =>
  absurd (h .manyHundredMillions (by decide)) (by decide +kernel)

end SqlScribe
