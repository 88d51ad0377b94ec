import SqlScribe.Proofs.Question.Sequence

/-!
# Intervals of phrases

Two amounts with a connector between them: both are found whole, whatever blanks stand around the
connector, and the interval is the same in either order. Main statements:

* `SpokenAmount.matchAt?_text`, `SpokenAmount.phraseValue?_spoken`: an amount is found whole and
  read;
* `AmountPattern.matchAt?_connected`: a connector and the amount behind it;
* `amountIn?_connected`: the interval of two amounts.
-/

namespace SqlScribe

open Pattern CountedUnit

variable {b : Option Char} {t r : Text}

/-! ## Amounts as they are written -/

/-- An amount of money as it is written. -/
inductive SpokenAmount where
  /-- A numeral, with the sign of the currency behind blanks or without it. -/
  | numeral (p : NumeralPhrase) (won : Option Blanks)
  /-- A number in digits, with the sign of the currency. -/
  | number (digits : Text) (value : Nat) (spelled : digits.toNat? = some value) (gap : Blanks)

namespace SpokenAmount

/-- How the amount is written. -/
def text : SpokenAmount → Text
  | numeral p none => p.text
  | numeral p (some gap) => p.text ++ (gap.text ++ ['원'])
  | number digits _ _ gap => digits ++ (gap.text ++ ['원'])

/-- How much it is. -/
def value : SpokenAmount → Nat
  | numeral p _ => p.value
  | number _ value _ _ => value

end SpokenAmount

/-- Neither a blank nor something that an amount could go on with. -/
def EndsAmount (r : Text) : Prop :=
  ∀ c, r.head? = some c → isBlank c = false ∧ isDecimal c = false ∧ c ∉ unitMarks ∧ c ≠ '원'

/-- Behind blanks no further unit stands. -/
theorem unitAt?_behindCount_blanks (hr : EndsAmount r) (e : Blanks) :
    unitAt? (behindCount (e.text ++ r)) = none := by
  rw [behindCount, List.dropWhile_append_of_pos e.blank,
    dropWhile_eq_self_of_head fun c hc => (hr c hc).1, behindDigits,
    dropWhile_eq_self_of_head fun c hc => (hr c hc).2.1,
    dropWhile_eq_self_of_head fun c hc => (hr c hc).1]
  exact unitAt?_eq_none fun c hc => (hr c hc).2.2.1

/-- No unit stands behind the sign of the currency. -/
theorem unitAt?_behindCount_sign (gap : Blanks) (r : Text) :
    unitAt? (behindCount (gap.text ++ '원' :: r)) = none := by
  have hsign : ∀ c, ('원' :: r).head? = some c → c = '원' := fun c hc => (Option.some.inj hc).symm
  have hblank : ∀ c, ('원' :: r).head? = some c → isBlank c = false := fun c hc =>
    hsign c hc ▸ by decide
  have hdecimal : ∀ c, ('원' :: r).head? = some c → isDecimal c = false := fun c hc =>
    hsign c hc ▸ isDecimal_of_mem_nonDigits (by decide)
  rw [behindCount, List.dropWhile_append_of_pos gap.blank, dropWhile_eq_self_of_head hblank,
    behindDigits, dropWhile_eq_self_of_head hdecimal, dropWhile_eq_self_of_head hblank]
  exact unitAt?_eq_none fun c hc => hsign c hc ▸ by decide

namespace SpokenAmount

variable (a : SpokenAmount)

/-- **An amount is found whole**, with some of the blanks behind it. -/
theorem matchAt?_text (hr : EndsAmount r) (e : Blanks) : ∃ f g : Blanks, e.text = f.text ++ g.text ∧
    AmountPattern.phrase.matchAt? b (a.text ++ (e.text ++ r))
      = some ⟨b, a.text ++ f.text, [], g.text ++ r⟩ := by
  cases a with
  | numeral p won =>
    cases won with
    | none =>
      refine ⟨e, .none, (List.append_nil _).symm, ?_⟩
      have hmatch := AmountPattern.matchAt?_text (b := b) (r := r) p e false
        (fun _ c hc => ⟨(hr c hc).1, (hr c hc).2.2.2⟩) (unitAt?_behindCount_blanks hr e)
      rwa [AmountPattern.wonSign, if_neg Bool.false_ne_true, List.append_nil] at hmatch
    | some gap =>
      refine ⟨.none, e, rfl, ?_⟩
      have hmatch := AmountPattern.matchAt?_text (b := b) (r := e.text ++ r) p gap true (by simp)
        (unitAt?_behindCount_sign gap _)
      rw [AmountPattern.wonSign, if_pos rfl, ← List.append_assoc gap.text,
        ← List.append_assoc] at hmatch
      rw [text, hmatch]
      exact congrArg (fun u => some (Match.mk b u [] _)) (List.append_nil _).symm
  | number d n hd gap =>
    obtain ⟨hne, hdigit⟩ := isDigit_of_toNat? hd
    refine ⟨.none, e, rfl, ?_⟩
    have hmatch := AmountPattern.matchAt?_won (b := b) (r := e.text ++ r) hne
      (fun c hc => isDecimal_of_isDigit (hdigit c hc)) gap
    rw [← List.singleton_append, ← List.append_assoc gap.text, ← List.append_assoc] at hmatch
    rw [text, hmatch]
    exact congrArg (fun u => some (Match.mk b u [] _)) (List.append_nil _).symm

/-- The digits at the start of a text are the first run of digits. -/
theorem find?_digits {d s : Text} (hne : d ≠ []) (hd : ∀ c ∈ d, isDecimal c = true)
    (hs : ∀ c, s.head? = some c → isDecimal c = false) :
    AmountPattern.digits.find? (d ++ s) = some ⟨none, d, [], s⟩ := by
  have hfirst : first AmountPattern.digits ⟨none, d ++ s, []⟩ some
      = some ⟨d.getLast?.or none, s, []⟩ :=
    AmountPattern.first_digits hne hd hs
  have hmatch := matchAt?_of_first hfirst hne
  rw [find?, findAll, pieces, piecesFrom_hit hmatch rfl]
  rfl

/-- An amount in a text of blanks behind it is read exactly, if it is not too large. -/
theorem phraseValue?_spoken (e : Blanks) :
    phraseValue? (a.text ++ e.text) = amountUpToMax? a.value := by
  have hblank : ∀ c ∈ e.text, c ∉ unitMarks := fun c hc hmark =>
    Bool.false_ne_true ((isBlank_of_mem_unitMarks hmark).symm.trans (e.blank c hc))
  have hwon : ∀ gap : Blanks, ∀ c ∈ gap.text ++ ['원'] ++ e.text, c ∉ unitMarks := by
    intro gap c hc hmark
    simp only [List.mem_append, List.mem_singleton] at hc
    rcases hc with (hc | rfl) | hc
    · exact Bool.false_ne_true ((isBlank_of_mem_unitMarks hmark).symm.trans (gap.blank c hc))
    · exact absurd hmark (by decide)
    · exact hblank c hc hmark
  cases a with
  | numeral p won =>
    cases won with
    | none => exact p.phraseValue?_text_ending hblank
    | some gap =>
      rw [text, List.append_assoc]
      exact p.phraseValue?_text_ending (hwon gap)
  | number d n hd gap =>
    obtain ⟨hne, hdigit⟩ := isDigit_of_toNat? hd
    have hterms : amountTerms (d ++ (gap.text ++ ['원'] ++ e.text)) = [] :=
      amountTermsFrom_eq_nil fun c hc => (List.mem_append.1 hc).elim
        (fun hc => not_mem_unitMarks_of_isDigit (hdigit c hc)) (hwon gap c)
    have hhead : ∀ c, (gap.text ++ ['원'] ++ e.text).head? = some c → isDecimal c = false := by
      intro c hc
      rw [List.append_assoc] at hc
      cases hgap : gap.text with
      | nil =>
        rw [hgap] at hc
        exact Option.some.inj hc ▸ isDecimal_of_mem_nonDigits (by decide)
      | cons x s =>
        rw [hgap] at hc
        exact Option.some.inj hc ▸ isDecimal_of_isBlank (gap.blank x (hgap ▸ List.mem_cons_self))
    rw [text, List.append_assoc, phraseValue?, hterms,
      find?_digits hne (fun c hc => isDecimal_of_isDigit (hdigit c hc)) hhead]
    show d.toNatUpTo? maxAmount = amountUpToMax? n
    rw [Text.toNatUpTo?, hd, amountUpToMax?, Option.filter_some]
    exact if_congr decide_eq_true_iff rfl rfl

/-- An amount begins with a digit. -/
theorem exists_text_eq_cons : ∃ x s, a.text = x :: s ∧ x.isDigit = true := by
  cases a with
  | numeral p won =>
    obtain ⟨x, s, hp, hx⟩ := p.exists_text_eq_cons
    cases won with
    | none => exact ⟨x, s, hp, hx⟩
    | some gap => exact ⟨x, s ++ (gap.text ++ ['원']), by rw [text, hp]; rfl, hx⟩
  | number d n hd gap =>
    obtain ⟨hne, hdigit⟩ := isDigit_of_toNat? hd
    obtain ⟨x, s, rfl⟩ := List.exists_cons_of_ne_nil hne
    exact ⟨x, s ++ (gap.text ++ ['원']), rfl, hdigit x List.mem_cons_self⟩

theorem isNumeralChar_text : ∀ c ∈ a.text, isNumeralChar c = true := by
  have hwon : ∀ gap : Blanks, ∀ c ∈ gap.text ++ ['원'], isNumeralChar c = true := by
    intro gap c hc
    rcases List.mem_append.1 hc with hc | hc
    · exact isNumeralChar_iff.2 (Or.inl (gap.blank c hc))
    · exact List.mem_singleton.1 hc ▸ by decide
  cases a with
  | numeral p won =>
    cases won with
    | none => exact p.isNumeralChar_text
    | some gap => exact List.forall_mem_append.2 ⟨p.isNumeralChar_text, hwon gap⟩
  | number d n hd gap =>
    refine List.forall_mem_append.2 ⟨fun c hc => ?_, hwon gap⟩
    exact isNumeralChar_iff.2 (Or.inr (Or.inl ((isDigit_of_toNat? hd).2 c hc)))

end SpokenAmount

/-! ## Connectors -/

/-- What a connector begins with. -/
theorem head_connector {w : Text} (hw : w ∈ connectors) : ∃ x s, w = x :: s ∧ isBlank x = false ∧
    isDecimal x = false ∧ x ∉ unitMarks ∧ x ≠ '원' ∧ isNumeralChar x = false := by
  have hall : ∀ w ∈ connectors, w.head?.any (fun x => nonDigits.contains x && !isBlank x &&
      !unitMarks.contains x && x != '원' && !isNumeralChar x) = true := by decide
  obtain ⟨x, hx, hsign⟩ := (Option.any_eq_true ..).1 (hall w hw)
  obtain ⟨s, hs⟩ := List.head?_eq_some_iff.1 hx
  simp only [Bool.and_eq_true, Bool.not_eq_true', bne_iff_ne, List.contains_iff_mem] at hsign
  obtain ⟨⟨⟨⟨hdecimal, hblank⟩, hmark⟩, hwon⟩, hnumeral⟩ := hsign
  exact ⟨x, s, hs, hblank, isDecimal_of_mem_nonDigits hdecimal,
    by simpa using hmark, hwon, hnumeral⟩

namespace AmountPattern

/-- **A connector and the phrase behind it**: the phrase is captured as it is found. -/
theorem matchAt?_connected {w s : Text} (hw : w ∈ connectors) (e f : Blanks)
    (hs : ∀ c, s.head? = some c → isBlank c = false)
    (hm : ∀ b, phrase.matchAt? b s = some ⟨b, t, [], r⟩) :
    ((connected w).matchAt? b (e.text ++ (w ++ (f.text ++ s)))).map (fun n => n.group 1)
      = some t := by
  obtain ⟨x, v, hxv, hblank, -⟩ := head_connector hw
  have hwblank : ∀ c, (w ++ (f.text ++ s)).head? = some c → isBlank c = false := by
    rw [hxv]
    exact fun c hc => Option.some.inj hc ▸ hblank
  obtain ⟨d, hd, hrest⟩ := exists_first_of_matchAt? (hm (f.text.getLast?.or (w.getLast?.or
    (e.text.getLast?.or b))))
  have hs' : t ++ r = s := (Pattern.matchAt?_text (hm none)).2
  have hfirst : first (connected w) ⟨b, (e.text ++ (w ++ (f.text ++ t))) ++ r, []⟩ some
      = some ⟨d.before, r, ⟨1, s, r⟩ :: d.captures⟩ := by
    simp only [List.append_assoc, hs']
    rw [connected, first_append, first_append, first_append, first_blanks_append e.blank hwblank,
      first_literal, first_blanks_append f.blank hs, first_group_some, hd]
    simp only [Option.map_some, Cursor.capture, hrest]
  have hne : e.text ++ (w ++ (f.text ++ t)) ≠ [] := by simp [hxv]
  have hmatch := matchAt?_of_first hfirst hne
  simp only [List.append_assoc, hs'] at hmatch
  rw [hmatch, Option.map_some]
  simp only [Match.group, Match.group?, List.map_cons, List.lookup_cons_self, Option.getD_some]
  rw [← hs', text_capture]

end AmountPattern

/-! ## Intervals -/

/-- In a text of two amounts and a connector no other connector begins. -/
theorem head_connector_not_mem {w w' : Text} (hw : w ∈ connectors) (hw' : w' ∈ connectors)
    (hne : w' ≠ w) {u v : Text} (hu : ∀ c ∈ u, isNumeralChar c = true)
    (hv : ∀ c ∈ v, isNumeralChar c = true) : ∀ c, w'.head? = some c → c ∉ u ++ (w ++ v) := by
  have hall : ∀ w ∈ connectors, ∀ w' ∈ connectors, w' ≠ w → ∀ c ∈ w'.take 1, c ∉ w := by decide
  intro c hc hmem
  obtain ⟨x, s, hx, -, -, -, -, hnumeral⟩ := head_connector hw'
  obtain rfl : x = c := by simpa [hx] using hc
  simp only [List.mem_append] at hmem
  rcases hmem with hmem | hmem | hmem
  · exact Bool.false_ne_true (hnumeral.symm.trans (hu _ hmem))
  · exact hall w hw w' hw' hne _ (by simp [hx]) hmem
  · exact Bool.false_ne_true (hnumeral.symm.trans (hv _ hmem))

/-- **Two amounts with a connector between them** are an interval. -/
theorem phraseInterval?_connected (x y : SpokenAmount) {w : Text} (hw : w ∈ connectors)
    (e f : Blanks) (hx : x.value ≤ maxAmount) (hy : y.value ≤ maxAmount) :
    phraseInterval? (amountPhrases (x.text ++ (e.text ++ (w ++ (f.text ++ y.text)))))
      = some (.between x.value y.value) := by
  obtain ⟨c, s, hws, hblank, hdecimal, hmark, hwon, -⟩ := head_connector hw
  have hends : EndsAmount (w ++ (f.text ++ y.text)) := by
    rw [hws]
    exact fun z hz => Option.some.inj hz ▸ ⟨hblank, hdecimal, hmark, hwon⟩
  obtain ⟨g, h, heq, hfirst⟩ := x.matchAt?_text (b := none) hends e
  -- the first phrase is the first amount, and behind it stands the second one
  obtain ⟨ms, hms⟩ : ∃ ms, amountPhrases (x.text ++ (e.text ++ (w ++ (f.text ++ y.text))))
      = ⟨none, x.text ++ g.text, [], h.text ++ (w ++ (f.text ++ y.text))⟩ :: ms := by
    rw [heq, List.append_assoc, ← List.append_assoc] at hfirst ⊢
    rw [amountPhrases, findAll, pieces, piecesFrom_hit hfirst rfl]
    exact ⟨_, rfl⟩
  have hsecond : Match.connected?
      ⟨none, x.text ++ g.text, [], h.text ++ (w ++ (f.text ++ y.text))⟩ w
      = some y.text := by
    have hy : ∀ b, AmountPattern.phrase.matchAt? b y.text = some ⟨b, y.text, [], []⟩ := fun b => by
      obtain ⟨g, h, heq, hmatch⟩ := y.matchAt?_text (b := b) (r := []) (by simp [EndsAmount]) .none
      obtain ⟨hg, hh⟩ := List.append_eq_nil_iff.1 heq.symm
      simpa [hg, hh, Blanks.none] using hmatch
    refine AmountPattern.matchAt?_connected hw h f (fun z hz => ?_) hy
    obtain ⟨d, u, hyd, hdigit⟩ := y.exists_text_eq_cons
    rw [hyd] at hz
    exact Option.some.inj hz ▸ isBlank_of_isDecimal (isDecimal_of_isDigit hdigit)
  have hothers : ∀ w' ∈ connectors, w' ≠ w →
      connectedPhrases? w' (amountPhrases (x.text ++ (e.text ++ (w ++ (f.text ++ y.text)))))
        = none := by
    intro w' hw' hne
    refine List.findSome?_eq_none_iff.2 fun m hm => ?_
    rw [Match.connected?_eq_none, Option.map_none]
    obtain ⟨z, u, hzu, -⟩ := head_connector hw'
    refine Bool.eq_false_iff.2 fun hprefix => ?_
    obtain ⟨v, hv⟩ := List.isPrefixOf_iff_prefix.1 hprefix
    have hz : z ∈ m.after :=
      (List.dropWhile_suffix isBlank).subset (hv ▸ hzu ▸ List.mem_cons_self)
    obtain ⟨u, v, ht, hof⟩ := isOf_of_mem_findAll hm
    have hmem : z ∈ (x.text ++ e.text) ++ (w ++ (f.text ++ y.text)) := by
      rw [List.append_assoc, ht, ← hof.text_append]
      exact List.mem_append_right _ (List.mem_append_right _ hz)
    have hblank : ∀ e : Blanks, ∀ c ∈ e.text, isNumeralChar c = true := fun e c hc =>
      isNumeralChar_iff.2 (Or.inl (e.blank c hc))
    exact head_connector_not_mem hw hw' hne
      (List.forall_mem_append.2 ⟨x.isNumeralChar_text, hblank e⟩)
      (List.forall_mem_append.2 ⟨hblank f, y.isNumeralChar_text⟩) z (by rw [hzu]; rfl) hmem
  rw [phraseInterval?, findSome?_eq_of_unique hw fun w' hw' hne => by rw [hothers w' hw' hne]; rfl,
    hms, connectedPhrases?, List.findSome?_cons, hsecond]
  simp only [Option.map_some, Option.bind_some, intervalOf?]
  rw [x.phraseValue?_spoken g, amountUpToMax?_of_le hx]
  have hlast := y.phraseValue?_spoken .none
  rw [Blanks.none, List.append_nil] at hlast
  rw [hlast, amountUpToMax?_of_le hy]

/-- **Intervals of amounts.** Two amounts with a connector between them, and blanks around it, are
the interval between them in either order; and whatever a text is, no amount in it is negative, and
the ends of an interval are in order. -/
theorem amountIn?_connected :
    (∀ (x y : SpokenAmount) (w : Text) (e f : Blanks), w ∈ connectors →
      x.value ≤ maxAmount → y.value ≤ maxAmount →
        amountIn? (x.text ++ (e.text ++ (w ++ (f.text ++ y.text))))
            = some (.range (min x.value y.value) (max x.value y.value)) ∧
          amountIn? (y.text ++ (e.text ++ (w ++ (f.text ++ x.text))))
            = some (.range (min x.value y.value) (max x.value y.value))) ∧
      ∀ (t : Text) (a : Amount), amountIn? t = some a → a.Bounded := by
  have hone : ∀ (x y : SpokenAmount) (w : Text) (e f : Blanks), w ∈ connectors →
      x.value ≤ maxAmount → y.value ≤ maxAmount →
        amountIn? (x.text ++ (e.text ++ (w ++ (f.text ++ y.text))))
          = some (.between x.value y.value) := by
    intro x y w e f hw hx hy
    have hcomma : ',' ∉ x.text ++ (e.text ++ (w ++ (f.text ++ y.text))) := by
      have hconnector : ∀ w ∈ connectors, ',' ∉ w := by decide
      have hchar : ∀ {u : Text}, (∀ c ∈ u, isNumeralChar c = true) → ',' ∉ u := fun hu hmem =>
        ne_comma_of_isNumeralChar (hu _ hmem) rfl
      have hblank : ∀ e : Blanks, ',' ∉ e.text := fun e =>
        hchar fun c hc => isNumeralChar_iff.2 (Or.inl (e.blank c hc))
      simp only [List.mem_append, not_or]
      exact ⟨hchar x.isNumeralChar_text, hblank e, hconnector w hw, hblank f,
        hchar y.isNumeralChar_text⟩
    rw [amountIn?, ungroupDigits_of_not_mem hcomma, ungroupedAmount?]
    simp only [phraseInterval?_connected x y hw e f hx hy, Option.some_or]
  refine ⟨fun x y w e f hw hx hy => ⟨hone x y w e f hw hx hy, ?_⟩, fun t a => bounded_of_amountIn?⟩
  rw [hone y x w e f hw hy hx, Amount.between, Int.min_comm, Int.max_comm]

/-- Between `3만` and `5000원` lies the same interval in either order. -/
theorem amountIn?_connected_thirtyThousand :
    amountIn? "3만 ~ 5000원" = some (.range 5000 30000) ∧
      amountIn? "5000원 ~ 3만" = some (.range 5000 30000) ∧
      Amount.Bounded (.range 5000 30000) := by
  obtain ⟨hforth, hback⟩ := amountIn?_connected.1 (.numeral .thirtyThousand none)
    (.number "5000" 5000 (by decide) .none) "~" .space .space (by decide) (by decide) (by decide)
  exact ⟨hforth, hback, amountIn?_connected.2 _ _ hforth⟩

end SqlScribe
