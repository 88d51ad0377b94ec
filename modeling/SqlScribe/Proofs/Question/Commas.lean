import SqlScribe.Proofs.Question.Terms

/-!
# Commas in numbers

Which commas are taken out of digits with commas between them: those with a digit in front of them
and three digits or more behind them. Main statements:

* `AmountPattern.matchAt?_grouped`, `AmountPattern.matchAt?_grouped_eq_none`: where a grouped number
  is found;
* `ungroupFrom_commaText`: digits with commas between them lose the commas of `joinGroups`.
-/

namespace SqlScribe

open Pattern

variable {b : Option Char} {c : Char} {a d e r s t : Text} {ds es : List Text} {cs : List Capture}
  {K : Continuation}

/-! ## Digits with commas between them -/

theorem isDecimal_comma : isDecimal ',' = false := by decide +kernel

/-- Digits have no commas among them. -/
theorem filter_digits (hd : ∀ c ∈ d, isDecimal c = true) : d.filter (· != ',') = d := by
  refine List.filter_eq_self.2 fun c hc => bne_iff_ne.2 ?_
  rintro rfl
  exact Bool.false_ne_true (isDecimal_comma.symm.trans (hd _ hc))

/-- Pieces with commas between them. -/
def commaText (d : Text) (ds : List Text) : Text := d ++ ds.flatMap fun e => ',' :: e

theorem commaText_nil (d : Text) : commaText d [] = d := List.append_nil d

theorem commaText_cons (d e : Text) (es : List Text) :
    commaText d (e :: es) = d ++ ',' :: commaText e es := rfl

theorem commaText_append (a d : Text) (ds : List Text) :
    commaText (a ++ d) ds = a ++ commaText d ds := List.append_assoc a d _

/-- The pieces without the commas that stand between a digit and three digits. -/
def joinGroups : Text → List Text → Text × List Text
  | d, [] => (d, [])
  | d, e :: es =>
    let joined := joinGroups e es
    if d ≠ [] ∧ 3 ≤ e.length then (d ++ joined.1, joined.2) else (d, joined.1 :: joined.2)

/-- What is written when the commas have been taken out. -/
def joinedText (d : Text) (ds : List Text) : Text :=
  commaText (joinGroups d ds).1 (joinGroups d ds).2

theorem joinedText_nil (d : Text) : joinedText d [] = d := commaText_nil d

theorem joinedText_of_join (hd : d ≠ []) (he : 3 ≤ e.length) :
    joinedText d (e :: es) = d ++ joinedText e es := by
  rw [joinedText, joinGroups, if_pos ⟨hd, he⟩]
  exact commaText_append ..

theorem joinedText_of_not (h : d = [] ∨ e.length < 3) :
    joinedText d (e :: es) = d ++ ',' :: joinedText e es := by
  have hnot : ¬ (d ≠ [] ∧ 3 ≤ e.length) := fun ⟨hd, he⟩ => h.elim hd (Nat.not_lt.2 he)
  rw [joinedText, joinGroups, if_neg hnot]
  exact commaText_cons ..

/-- The comma behind the piece stays, or it goes whatever else is in front of the piece. -/
def Settled (d : Text) (ds : List Text) : Prop := d ≠ [] ∨ ∀ e ∈ ds.head?, e.length < 3

theorem joinedText_append (a : Text) (h : Settled d ds) :
    joinedText (a ++ d) ds = a ++ joinedText d ds := by
  cases ds with
  | nil => rw [joinedText_nil, joinedText_nil]
  | cons e es =>
    by_cases he : 3 ≤ e.length
    · have hd : d ≠ [] := h.resolve_right fun hshort => Nat.not_lt.2 he (hshort e rfl)
      rw [joinedText_of_join hd he, joinedText_of_join (by simp [hd]) he, List.append_assoc]
    · rw [joinedText_of_not (Or.inr (Nat.lt_of_not_le he)),
        joinedText_of_not (Or.inr (Nat.lt_of_not_le he)), List.append_assoc]

/-! ## Finding a grouped number -/

namespace AmountPattern

/-- A comma and three digits. -/
def groupStep : Pattern := literal "," ++ times 3 (one .decimal)

theorem grouped_eq : grouped = one .decimal ++ upTo 2 (one .decimal) ++ literal "," ++
    times 3 (one .decimal) ++ star groupStep := rfl

/-- A group of three digits with a comma in front of it. -/
def IsGroup (u : Text) : Prop := ∃ a, u = ',' :: a ∧ a.length = 3 ∧ ∀ c ∈ a, isDecimal c = true

theorem first_groupStep {u : Text} (hu : IsGroup u) (r : Text) :
    first groupStep ⟨b, u ++ r, cs⟩ K = K ⟨u.getLast?.or b, r, cs⟩ := by
  obtain ⟨a, rfl, hlength, ha⟩ := hu
  rw [groupStep, first_append, List.cons_append, Text.getLast?_cons_or]
  exact (first_literal [','] _).trans (first_times (k := .decimal) hlength ha)

theorem first_groupStep_eq_none (h : ∀ s, t = ',' :: s → (s.takeWhile isDecimal).length < 3) :
    first groupStep ⟨b, t, cs⟩ K = none := by
  rw [groupStep, first_append]
  by_cases hcomma : t.head? = some ','
  · obtain ⟨s, rfl⟩ := List.head?_eq_some_iff.1 hcomma
    exact (first_literal [','] s).trans (first_times_eq_none (k := .decimal) (h s rfl))
  · exact first_literal_of_ne hcomma

/-- **A grouped number**: up to three digits, and groups up to a place where none follows. -/
theorem matchAt?_grouped {us : List Text} (hne : d ≠ []) (hlength : d.length ≤ 3)
    (hd : ∀ c ∈ d, isDecimal c = true) (ha : IsGroup a) (hus : ∀ u ∈ us, IsGroup u)
    (hs : ∀ s', s = ',' :: s' → (s'.takeWhile isDecimal).length < 3) :
    grouped.matchAt? b ((d ++ (a ++ us.flatten)) ++ s)
      = some ⟨b, d ++ (a ++ us.flatten), [], s⟩ := by
  obtain ⟨x, d, rfl⟩ := List.exists_cons_of_ne_nil hne
  obtain ⟨hx, hd⟩ := List.forall_mem_cons.1 hd
  obtain ⟨b', hstar⟩ : ∃ b', first (star groupStep)
      ⟨a.getLast?.or (d.getLast?.or (some x)), us.flatten ++ s, []⟩ some = some ⟨b', s, []⟩ := by
    refine ⟨_, first_star (fun u hu => ?_) (fun u vs hsuffix b K => ?_)
      (fun b K => first_groupStep_eq_none hs) rfl⟩
    · obtain ⟨v, rfl, -⟩ := hus u hu
      exact List.cons_ne_nil _ _
    · exact first_groupStep (hus u (hsuffix.subset List.mem_cons_self)) _
  have hgroup : first groupStep ⟨d.getLast?.or (some x), a ++ (us.flatten ++ s), []⟩
      (fun c => first (star groupStep) c some) = some ⟨b', s, []⟩ :=
    (first_groupStep ha _).trans hstar
  have hcomma : ∀ y, (a ++ (us.flatten ++ s)).head? = some y →
      CharClass.has .decimal y = false := by
    obtain ⟨v, rfl, -⟩ := ha
    exact fun y hy => Option.some.inj hy ▸ isDecimal_comma
  have hfirst : first grouped ⟨b, (x :: d ++ (a ++ us.flatten)) ++ s, []⟩ some
      = some ⟨b', s, []⟩ := by
    simp only [List.append_assoc, List.cons_append]
    rw [grouped_eq, first_append, first_append, first_append, first_append,
      first_one_of_has (show CharClass.has .decimal x = true from hx)]
    exact first_upTo (Nat.le_of_succ_le_succ hlength) hd hcomma hgroup
  exact matchAt?_of_first hfirst (by simp)

/-- No grouped number begins with more than three digits, or where no three digits stand behind the
comma. -/
theorem matchAt?_grouped_eq_none {x : Char} (hd : ∀ c ∈ d, isDecimal c = true)
    (hr : ∀ c, r.head? = some c → isDecimal c = false)
    (h : 3 ≤ d.length ∨ ∀ s, r = ',' :: s → (s.takeWhile isDecimal).length < 3) :
    grouped.matchAt? b (x :: (d ++ r)) = none := by
  refine matchAt?_eq_none_of_first ?_
  rw [grouped_eq, first_append, first_append, first_append, first_append]
  by_cases hx : CharClass.has .decimal x = true
  · rw [first_one_of_has hx]
    refine first_upTo_eq_none fun v s hs hlength hv => ?_
    rw [← first_append]
    refine first_groupStep_eq_none fun s' hs' => ?_
    -- the comma stands behind the whole run of digits
    have hrun : v = d := by
      have htake := congrArg (List.takeWhile isDecimal) hs
      have hstop : ∀ y, s.head? = some y → isDecimal y = false := fun y hy => by
        rw [hs'] at hy
        exact Option.some.inj hy ▸ isDecimal_comma
      rw [Text.takeWhile_append_of_head hd hr,
        Text.takeWhile_append_of_head (f := isDecimal) hv hstop] at htake
      exact htake.symm
    subst hrun
    refine (h.resolve_left (by omega)) s' ?_
    rw [← hs']
    exact List.append_cancel_left hs
  · exact first_one_of_not_has fun y hy => by
      rw [← Option.some.inj hy]
      simpa using hx

end AmountPattern

/-! ## Taking the commas out -/

/-- The text behind `b` with the commas taken out of its grouped numbers. -/
def ungroupFrom (b : Option Char) (t : Text) : Text :=
  (piecesFrom AmountPattern.grouped b 0 t).flatMap fun
    | .plain c => [c]
    | .hit m => m.text.filter (· != ',')

theorem ungroupDigits_eq (t : Text) : ungroupDigits t = ungroupFrom none t := rfl

theorem ungroupFrom_cons (h : AmountPattern.grouped.matchAt? b (c :: t) = none) :
    ungroupFrom b (c :: t) = c :: ungroupFrom (some c) t := by
  rw [ungroupFrom, piecesFrom_of_none h]
  rfl

theorem ungroupFrom_hit {u : Text} {m : Match}
    (h : AmountPattern.grouped.matchAt? b (u ++ r) = some m) (hu : m.text = u) :
    ungroupFrom b (u ++ r) = u.filter (· != ',') ++ ungroupFrom (u.getLast?.or b) r := by
  rw [ungroupFrom, piecesFrom_hit h hu, List.flatMap_cons, ← hu]
  rfl

/-- A grouped number begins with a digit. -/
theorem ungroupFrom_cons_of_not (hc : isDecimal c = false) :
    ungroupFrom b (c :: t) = c :: ungroupFrom (some c) t := by
  refine ungroupFrom_cons (matchAt?_eq_none_of_first ?_)
  rw [AmountPattern.grouped_eq, first_append, first_append, first_append, first_append]
  exact first_one_of_not_has fun y hy => Option.some.inj hy ▸ hc

theorem ungroupFrom_of_not (ht : ∀ c ∈ t, isDecimal c = false) : ungroupFrom b t = t := by
  induction t generalizing b with
  | nil => rfl
  | cons c t ih =>
    obtain ⟨hc, ht⟩ := List.forall_mem_cons.1 ht
    rw [ungroupFrom_cons_of_not hc, ih ht]

/-- Pieces of digits with commas between them, and something else behind them. -/
structure DigitPieces (d : Text) (ds : List Text) (r : Text) : Prop where
  lead : ∀ c ∈ d, isDecimal c = true
  others : ∀ e ∈ ds, ∀ c ∈ e, isDecimal c = true
  behind : ∀ c, r.head? = some c → isDecimal c = false ∧ c ≠ ','

namespace DigitPieces

theorem tail (h : DigitPieces d (e :: es) r) : DigitPieces e es r :=
  ⟨h.others e List.mem_cons_self, fun f hf => h.others f (List.mem_cons_of_mem e hf), h.behind⟩

theorem head_rest (h : DigitPieces d ds r) :
    ∀ c, (ds.flatMap (fun e => ',' :: e) ++ r).head? = some c → isDecimal c = false := by
  cases ds with
  | nil => exact fun c hc => (h.behind c hc).1
  | cons e es => exact fun c hc => Option.some.inj hc ▸ isDecimal_comma

/-- Behind a comma stand the digits of the next piece. -/
theorem takeWhile_rest (h : DigitPieces d ds r)
    (hs : ds.flatMap (fun e => ',' :: e) ++ r = ',' :: s) :
    ∃ e es, ds = e :: es ∧ s.takeWhile isDecimal = e := by
  cases ds with
  | nil => exact absurd rfl (h.behind ',' (by rw [show r = ',' :: s from hs]; rfl)).2
  | cons e es =>
    refine ⟨e, es, rfl, ?_⟩
    have hrest : e ++ (es.flatMap (fun e => ',' :: e) ++ r) = s := by
      rw [← List.append_assoc]
      exact (List.cons.inj hs).2
    rw [← hrest]
    exact Text.takeWhile_append_of_head h.tail.lead h.tail.head_rest

/-- Where a piece is settled no further group follows. -/
theorem short_of_settled (h : DigitPieces d ds r) (hsettled : Settled d ds)
    (hs : commaText d ds ++ r = ',' :: s) : (s.takeWhile isDecimal).length < 3 := by
  cases d with
  | nil =>
    obtain ⟨e, es, rfl, he⟩ := h.takeWhile_rest hs
    rw [he]
    exact hsettled.resolve_left (fun hne => hne rfl) e rfl
  | cons x d =>
    obtain rfl : x = ',' := (List.cons.inj hs).1
    exact absurd (isDecimal_comma.symm.trans (h.lead ',' List.mem_cons_self)) Bool.false_ne_true

/-- The groups that a grouped number takes: three digits each, up to a piece that is settled. -/
theorem exists_groups (h : DigitPieces d ds r) : ∃ (us : List Text) (e : Text) (es : List Text),
    commaText d ds = us.flatten ++ commaText e es ∧ (∀ u ∈ us, AmountPattern.IsGroup u) ∧
      DigitPieces e es r ∧ Settled e es ∧ ∀ a ≠ [],
        joinedText (a ++ d) ds = a ++ (us.flatten.filter (· != ',') ++ joinedText e es) := by
  induction ds generalizing d with
  | nil =>
    exact ⟨[], d, [], rfl, by simp, h, Or.inr (by simp),
      fun a _ => joinedText_append a (Or.inr (by simp))⟩
  | cons f fs ih =>
    by_cases hsettled : Settled d (f :: fs)
    · exact ⟨[], d, f :: fs, rfl, by simp, h, hsettled, fun a _ => joinedText_append a hsettled⟩
    · simp only [Settled, List.head?_cons, Option.mem_some_iff, not_or, not_not, forall_eq',
        Nat.not_lt] at hsettled
      obtain ⟨rfl, hf⟩ := hsettled
      have htail := h.tail
      -- the group is the first three digits of the next piece
      have hgroup : AmountPattern.IsGroup (',' :: f.take 3) :=
        ⟨f.take 3, rfl, by rw [List.length_take]; omega,
          fun c hc => htail.lead c (List.mem_of_mem_take hc)⟩
      have hdrop : DigitPieces (f.drop 3) fs r :=
        ⟨fun c hc => htail.lead c (List.mem_of_mem_drop hc), htail.others, htail.behind⟩
      obtain ⟨us, e, es, htext, hus, hpieces, hsettled, hjoin⟩ := ih hdrop
      refine ⟨(',' :: f.take 3) :: us, e, es, ?_, List.forall_mem_cons.2 ⟨hgroup, hus⟩, hpieces,
        hsettled, fun a ha => ?_⟩
      · rw [commaText_cons, List.flatten_cons, List.append_assoc, ← htext,
          ← List.take_append_drop 3 f, commaText_append]
        simp
      · have htake : f.take 3 ≠ [] := by
          rw [ne_eq, List.take_eq_nil_iff]
          rintro (h3 | rfl)
          · omega
          · exact absurd hf (by simp)
        have hfilter : (',' :: f.take 3).filter (· != ',') = f.take 3 := by
          rw [List.filter_cons_of_neg (by simp)]
          exact filter_digits fun c hc => htail.lead c (List.mem_of_mem_take hc)
        have hnext := hjoin _ htake
        rw [List.take_append_drop] at hnext
        rw [List.append_nil, joinedText_of_join ha hf, hnext, List.flatten_cons, List.filter_append,
          hfilter, List.append_assoc]

/-- Up to three digits in front of a piece of three digits or more begin a grouped number. -/
theorem exists_grouped {x : Char} (h : DigitPieces (x :: d) (e :: es) r) (hlength : d.length < 3)
    (he : 3 ≤ e.length) (b : Option Char) : ∃ (u f : Text) (fs : List Text),
    commaText (x :: d) (e :: es) = x :: u ++ commaText f fs ∧ DigitPieces f fs r ∧
      AmountPattern.grouped.matchAt? b (x :: u ++ (commaText f fs ++ r))
        = some ⟨b, x :: u, [], commaText f fs ++ r⟩ ∧
      joinedText (x :: d) (e :: es) = (x :: u).filter (· != ',') ++ joinedText f fs := by
  have hrest : DigitPieces [] (e :: es) r := ⟨by simp, h.others, h.behind⟩
  obtain ⟨us, f, fs, htext, hus, hpieces, hsettled, hjoin⟩ := hrest.exists_groups
  have hshort := fun s => hpieces.short_of_settled (s := s) hsettled
  cases us with
  | nil =>
    -- the next piece has three digits, so a group is taken
    obtain ⟨e', es', heq, htake⟩ := hrest.takeWhile_rest (s := commaText e es ++ r) rfl
    obtain ⟨rfl, rfl⟩ := List.cons.inj heq
    rw [List.flatten_nil, List.nil_append] at htext
    have hlt := hshort (commaText e es ++ r) (by rw [← htext]; rfl)
    rw [htake] at hlt
    omega
  | cons u us =>
    obtain ⟨hu, hus⟩ := List.forall_mem_cons.1 hus
    have hjoined := hjoin (x :: d) (List.cons_ne_nil x d)
    rw [List.append_nil] at hjoined
    refine ⟨d ++ (u ++ us.flatten), f, fs, ?_, hpieces, ?_, ?_⟩
    · rw [← List.append_nil (x :: d), commaText_append, htext, List.flatten_cons]
      simp only [List.append_assoc, List.cons_append]
    · exact AmountPattern.matchAt?_grouped (List.cons_ne_nil x d) hlength h.lead hu hus hshort
    · rw [hjoined, ← List.cons_append, List.filter_append, filter_digits h.lead, List.flatten_cons,
        List.append_assoc]

/-- No grouped number begins elsewhere. -/
theorem matchAt?_eq_none {x : Char} (h : DigitPieces d ds r)
    (hno : ¬ (d.length < 3 ∧ ∃ e ∈ ds.head?, 3 ≤ e.length)) :
    AmountPattern.grouped.matchAt? b (x :: (commaText d ds ++ r)) = none := by
  rw [commaText, List.append_assoc]
  refine AmountPattern.matchAt?_grouped_eq_none h.lead h.head_rest ?_
  by_cases hlength : d.length < 3
  · refine Or.inr fun s hs => ?_
    obtain ⟨e, es, rfl, htake⟩ := h.takeWhile_rest hs
    rw [htake]
    exact Nat.lt_of_not_le fun hthree => hno ⟨hlength, e, rfl, hthree⟩
  · exact Or.inl (Nat.not_lt.1 hlength)

theorem settled_of_not (hno : ¬ (d.length < 3 ∧ ∃ e ∈ ds.head?, 3 ≤ e.length)) : Settled d ds := by
  by_cases hne : d = []
  · refine Or.inr fun e he => Nat.lt_of_not_le fun hthree => hno ⟨?_, e, he, hthree⟩
    rw [hne]
    exact Nat.succ_pos 2
  · exact Or.inl hne

/-- **The commas of grouped numbers are taken out**, and no others. -/
theorem ungroupFrom_commaText (h : DigitPieces d ds r) :
    ∃ b', ungroupFrom b (commaText d ds ++ r) = joinedText d ds ++ ungroupFrom b' r := by
  induction hn : (commaText d ds).length using Nat.strong_induction_on generalizing b d ds with
  | _ n ih =>
    subst hn
    cases d with
    | nil =>
      cases ds with
      | nil => exact ⟨b, rfl⟩
      | cons e es =>
        obtain ⟨b', hb'⟩ := ih _ (by simp [commaText_cons]) (b := some ',') h.tail rfl
        refine ⟨b', ?_⟩
        rw [commaText_cons, joinedText_of_not (Or.inl rfl), List.nil_append, List.cons_append,
          ungroupFrom_cons_of_not isDecimal_comma, hb']
        rfl
    | cons x d =>
      by_cases hhit : d.length < 3 ∧ ∃ e ∈ ds.head?, 3 ≤ e.length
      · obtain ⟨hlength, e, he, hthree⟩ := hhit
        obtain ⟨es, rfl⟩ := List.head?_eq_some_iff.1 he
        obtain ⟨u, f, fs, htext, hpieces, hmatch, hjoin⟩ := h.exists_grouped hlength hthree b
        have hlonger : (commaText f fs).length < (commaText (x :: d) (e :: es)).length := by
          rw [htext, List.length_append, List.length_cons]
          omega
        obtain ⟨b', hb'⟩ := ih _ hlonger (b := (x :: u).getLast?.or b) hpieces rfl
        refine ⟨b', ?_⟩
        rw [htext, List.append_assoc, ungroupFrom_hit hmatch rfl, hb', hjoin, List.append_assoc]
      · have hpieces : DigitPieces d ds r := ⟨(List.forall_mem_cons.1 h.lead).2, h.others, h.behind⟩
        have hjoin : joinedText (x :: d) ds = x :: joinedText d ds :=
          joinedText_append [x] (settled_of_not hhit)
        have hall : commaText (x :: d) ds ++ r = x :: (commaText d ds ++ r) := rfl
        obtain ⟨b', hb'⟩ := ih _ (by simp [commaText]) (b := some x) hpieces rfl
        refine ⟨b', ?_⟩
        rw [hall, ungroupFrom_cons (hpieces.matchAt?_eq_none hhit), hb', hjoin, List.cons_append]

end DigitPieces

end SqlScribe
