import SqlScribe.Proofs.Dialect.Literals
import SqlScribe.Proofs.Dialect.Neutral
import SqlScribe.Proofs.Generation.Handover
import SqlScribe.Proofs.Generation.Rules

/-!
# Statements of rules in any dialect

What the rules write for a question means the same in every dialect: no pipeline finds anything to
change in it, and each writes it as it is. Main statements:

* `Condition.neutral_sql`: conditions;
* `SelectParts.Spoken.neutral`: the clauses of a statement;
* `answerByRules_neutral`: the statement for any question, in any dialect.
-/

namespace SqlScribe

/-! ## Literals -/

theorem isForeign_of_isDigit {c : Char} (h : c.isDigit = true) : isForeign c = true := by
  have hfold : simpleFold c = c :=
    (simpleFold_of_class (p := Char.isDigit) (by decide) (by decide) h).trans (toLower_of_isDigit h)
  have hcode := isDigit_iff.1 h
  refine isForeign_of_not_isLower hfold (Bool.eq_false_iff.2 fun hlower => ?_) fun hquote => ?_
  · have hge := (isLower_iff.1 hlower).1
    omega
  · rcases List.mem_pair.1 hquote with rfl | rfl <;> exact absurd h (by decide)

theorem isForeign_of_hangul {c : Char} (h : CharClass.hangul.has c = true) :
    isForeign c = true := by
  have hfirst := (hangul_span h).1
  have hfold : simpleFold c = c :=
    (simpleFold_of_class (by decide) (by decide) h).trans (toLower_of_not_ascii (by omega))
  refine isForeign_of_not_isLower hfold (Bool.eq_false_iff.2 fun hlower => ?_) fun hquote => ?_
  · have hle := (isLower_iff.1 hlower).2
    omega
  · rcases List.mem_pair.1 hquote with rfl | rfl <;> exact absurd h (by decide)

theorem foreign_quoted {t : Text} (h : ∀ c ∈ t, isForeign c = true) :
    ∀ c ∈ "'" ++ t ++ "'", isForeign c = true := by
  have hquote : ∀ c ∈ "'".toList, isForeign c = true := fun c hc =>
    List.mem_singleton.1 hc ▸ isForeign_of_not_isLower (by decide) (by decide) (by decide)
  intro c hc
  rcases List.mem_append.1 hc with hc | hc
  · exact (List.mem_append.1 hc).elim (hquote c) (h c)
  · exact hquote c hc

theorem foreign_amount {v : Int} (h : IsAmount v) :
    ∀ c ∈ (Literal.integer v).sql, isForeign c = true := by
  have hnonneg := h.1
  rw [Literal.sql, Text.ofInt, if_neg (by omega)]
  exact fun c hc => isForeign_of_isDigit (isDigit_of_mem_ofNat hc)

theorem foreign_day (d : Date) : ∀ c ∈ (Literal.date d).sql, isForeign c = true := by
  have hdash : isForeign '-' = true := isForeign_of_not_isLower (by decide) (by decide) (by decide)
  have hplus : isForeign '+' = true := isForeign_of_not_isLower (by decide) (by decide) (by decide)
  have hpad : ∀ w n, ∀ c ∈ Text.padLeft w (Text.ofNat n), isForeign c = true :=
    fun w n c hc => isForeign_of_isDigit (isDigit_padLeft w n c hc)
  have hsign : ∀ c ∈ (if d.year < 0 then "-" else if 9999 < d.year then "+" else [] : Text),
      isForeign c = true := by
    split
    · simpa using hdash
    · split
      · simpa using hplus
      · simp
  refine foreign_quoted fun c hc => ?_
  rw [Date.text] at hc
  simp only [List.mem_append] at hc
  rcases hc with ((((hc | hc) | hc) | hc) | hc) | hc
  · exact hsign c hc
  · exact hpad _ _ c hc
  · exact List.mem_singleton.1 hc ▸ hdash
  · exact hpad _ _ c hc
  · exact List.mem_singleton.1 hc ▸ hdash
  · exact hpad _ _ c hc

/-- Whatever a question says, its literals are foreign to the rules. -/
theorem Condition.foreign_literal {t : Table} {p : Predicate} (h : Condition t p) :
    ∀ l ∈ p.operand.literals, ∀ c ∈ l.sql, isForeign c = true := by
  intro l hl
  cases h with
  | name hn hcolumn =>
    rw [List.mem_singleton.1 hl]
    exact foreign_quoted fun c hc => isForeign_of_hangul (hn.2 c hc)
  | department hr hmap hcolumn =>
    rw [List.mem_singleton.1 hl]
    exact foreign_quoted fun c hc => isForeign_of_hangul ((isPersonName_department hr).2 c hc)
  | interval hmap hcolumn hlow hhigh =>
    rcases List.mem_pair.1 hl with rfl | rfl
    · exact foreign_amount hlow
    · exact foreign_amount hhigh
  | amount hmap hcolumn hr hv =>
    rw [List.mem_singleton.1 hl]
    exact foreign_amount hv
  | hired hy hcolumn =>
    rcases List.mem_pair.1 hl with rfl | rfl <;> exact foreign_day _

/-! ## Statements -/

/-- What the clauses of a statement are put together from: the words and signs of statements, and
what the lexicon has words for. -/
def spokenPieces : List Text :=
  statementWords ++ Question.tableNames ++ lexiconOrders ++ (lexiconColumns ++ figures)

theorem neutral_of_spokenPieces {u : Text} (h : u ∈ spokenPieces) : Neutral u := by
  have hall : (spokenPieces.all isNeutral) = true := by decide +kernel
  exact isNeutral_iff.1 (List.all_eq_true.1 hall u h)

/-- The words and signs that statements are written with are neutral. -/
theorem neutral_of_statementWords {w : Text} (h : statementWords.contains w = true) :
    Neutral w :=
  neutral_of_spokenPieces (List.mem_append_left _ (List.mem_append_left _
    (List.mem_append_left _ (List.contains_iff_mem.1 h))))

theorem neutral_of_lexicon {u : Text} (h : u ∈ lexiconColumns ++ figures) : Neutral u :=
  neutral_of_spokenPieces (List.mem_append_right _ h)

/-- The conditions of a question are neutral. -/
theorem Condition.neutral_sql {t : Table} {p : Predicate} (h : Condition t p) : Neutral p.sql := by
  have hcolumn : Neutral p.column := neutral_of_lexicon (List.mem_append_left _ h.column_mem)
  have hliteral : ∀ l ∈ p.operand.literals, Neutral l.sql :=
    fun l hl => neutral_of_foreign (h.foreign_literal l hl)
  clear h
  have hspace : Neutral " " := neutral_of_statementWords (by decide)
  have hbetween : Neutral " BETWEEN " := neutral_of_statementWords (by decide)
  have hand : Neutral " AND " := neutral_of_statementWords (by decide)
  obtain ⟨column, op, operand⟩ := p
  cases operand with
  | single l =>
    have hsymbol : Neutral op.symbol := by
      cases op <;> exact neutral_of_statementWords (by decide)
    have hsql := (hcolumn.separated hspace (by decide) hsymbol).separated hspace
      (by decide) (hliteral l List.mem_cons_self)
    exact hsql
  | range low high =>
    have hlow := hliteral low List.mem_cons_self
    have hhigh := hliteral high (List.mem_cons_of_mem _ List.mem_cons_self)
    have hsql := (hcolumn.separated hbetween (by decide) hlow).separated hand
      (by decide) hhigh
    exact hsql

/-- The clauses of a statement that the lexicon has words for are neutral. -/
theorem SelectParts.Spoken.neutral {t : Table} {p : SelectParts} (h : p.Spoken t) :
    ∀ c ∈ p.clauses, Neutral c.body := by
  have htable : Neutral p.table := neutral_of_spokenPieces (List.mem_append_left _
    (List.mem_append_left _ (List.mem_append_right _ h.table)))
  have horder : ∀ o ∈ lexiconOrders, Neutral o := fun o ho =>
    neutral_of_spokenPieces (List.mem_append_left _ (List.mem_append_right _ ho))
  have hcomma : Neutral ", " := neutral_of_statementWords (by decide)
  have hand : Neutral " AND " := neutral_of_statementWords (by decide)
  refine forall_mem_clauses (neutral_of_statementWords (by decide)) ?_ htable ?_
    (fun g hg => neutral_of_lexicon (List.mem_append_left _ (h.groupBy g hg)))
    (fun o ho => horder o (h.orderBy o ho))
    fun n _ => neutral_of_foreign fun c hc => isForeign_of_isDigit (isDigit_of_mem_ofNat hc)
  · exact fun _ => hcomma.join (by decide) fun u hu => neutral_of_lexicon (h.projection.2 u hu)
  · refine fun _ => hand.join (by decide) fun u hu => ?_
    obtain ⟨c, hc, rfl⟩ := h.conditions.2 u hu
    exact hc.neutral_sql

/-! ## Any dialect -/

/-- A pipeline finds nothing in an accepted normal form with neutral clauses. -/
theorem idle_of_neutral {d : Dialect} {p : Pipeline} (hp : d.pipeline? = some p) {sql : Text}
    (hready : Statement.Ready sql) (h : ∀ c ∈ (Outline.scan sql).clauses, Neutral c.body) :
    p.Idle sql := by
  obtain ⟨b, rfl, hbody⟩ := hready.normal
  have hlexical := fun r hr => (Dialect.keepsEnd hp).lexical r hr b hbody hready.accepted
  have hrule : ∀ r ∈ clauseRules, ∀ c ∈ (Outline.scan (b ++ [';'])).clauses,
      r.applyTo c.body = c.body := fun r hr c hc => (h c hc).applyTo hr
  have hcount : Sybase.topToLimit? (Outline.scan (b ++ [';'])) = none := by
    refine Sybase.topToLimit?_eq_none_iff.2 fun body hbody => ?_
    obtain ⟨c, hc, rfl⟩ := Option.map_eq_some_iff.1 hbody
    exact (h c (List.mem_of_find?_eq_some hc)).topCount
  have hshape : ∀ o, Sybase.topToLimit? o = none →
      ∀ r ∈ Sybase.pipeline.shape, r.reshape? o = none := by
    intro o ho r hr
    simp only [Sybase.pipeline, List.mem_singleton] at hr
    subst hr
    exact ho
  cases d with
  | canonical => exact absurd hp (by simp [Dialect.pipeline?])
  | hive =>
    obtain rfl := Option.some.inj hp
    refine ⟨hlexical, fun r hr => hrule r ?_, fun r hr => hrule r ?_,
      fun r hr => absurd hr List.not_mem_nil⟩
    · exact List.mem_append_left _ (List.mem_append_left _ (List.mem_append_left _ hr))
    · exact List.mem_append_left _ (List.mem_append_left _ (List.mem_append_right _ hr))
  | sybase =>
    obtain rfl := Option.some.inj hp
    refine ⟨hlexical, fun r hr => hrule r ?_, fun r hr => hrule r ?_, fun r hr => ?_⟩
    · exact List.mem_append_left _ (List.mem_append_right _ hr)
    · exact List.mem_append_right _ hr
    · exact hshape _ hcount r hr

/-- The statement of a reading is one of neutral clauses, written as it is scanned. -/
theorem neutral_of_build {text : Text} {s : Schema} (hs : s.namesPlain = true) {st : Statement}
    (h : (readQuestion text s).request.build (readQuestion text s).intent s = .ok st) :
    Statement.Ready st.text ∧ (Outline.scan st.text).render = st.text ∧
      ∀ c ∈ (Outline.scan st.text).clauses, Neutral c.body := by
  have haccepted := accepted_of_build h
  obtain ⟨p, hp, hscan, -⟩ := Request.scan_build hs h
  obtain ⟨p', hp', rfl⟩ := Request.build_eq_ok_iff.1 h
  obtain rfl : p = p' := Except.ok.inj (hp.symm.trans hp')
  obtain ⟨t, ht⟩ := spoken_plan hp
  obtain ⟨hsolid, -⟩ := Request.solid_plan hs hp
  refine ⟨Statement.ready_normalize haccepted, ?_, ?_⟩
  · rw [hscan, ← SelectParts.normalize_sql hsolid]
    rfl
  · rw [hscan]
    intro c hc
    obtain ⟨x, hx, rfl⟩ := List.mem_map.1 hc
    exact (ht.neutral x hx).collapse

/-- **Statements of rules mean the same in every dialect.** Over the built-in schema the rules
answer every question, and no pipeline finds anything to change in the answer: it is written as it
is, each rule is reported to have missed, and tagged with any dialect the statement is converted
to itself. -/
theorem answerByRules_neutral (text : Text) :
    ∃ a, answerByRules text .humanResources = .ok a ∧
      (∀ d p, Dialect.pipeline? d = some p →
        p.apply a.statement.text = ⟨a.statement.text, [], p.ruleNames⟩) ∧
      ∀ d, ∃ missed, ({ a.statement with dialect := d }).toCanonical
        = .ok ⟨a.statement, { a.statement with dialect := d }, [], missed⟩ := by
  have hplain : Schema.humanResources.namesPlain = true := by decide +kernel
  obtain ⟨st, hst⟩ := build_of_suitsLexicon suitsLexicon_humanResources text
  obtain ⟨hready, hrender, hneutral⟩ := neutral_of_build hplain hst
  have happly : ∀ d p, Dialect.pipeline? d = some p →
      p.apply st.text = ⟨st.text, [], p.ruleNames⟩ := by
    intro d p hp
    rw [(idle_of_neutral hp hready hneutral).apply, hrender]
  refine ⟨_, answerByRules_of_build hst, happly, fun d => ?_⟩
  have haccepted : Statement.rejection? st.text = none := hready.accepted
  have hcanonical : st = ⟨st.text, .canonical, st.provenance⟩ := by
    obtain ⟨-, -, rfl⟩ := Request.build_eq_ok_iff.1 hst
    rfl
  cases hd : d.pipeline? with
  | none =>
    have hself : ({ st with dialect := d } : Statement) = st := by
      cases d with
      | canonical => exact hcanonical.symm
      | hive => exact absurd hd (by simp [Dialect.pipeline?])
      | sybase => exact absurd hd (by simp [Dialect.pipeline?])
    refine ⟨[], ?_⟩
    rw [hself, Statement.toCanonical_of_ready (congrArg Statement.dialect hcanonical) hready]
  | some p =>
    refine ⟨p.ruleNames, ?_⟩
    rw [Statement.toCanonical]
    simp only [hd, happly d p hd, haccepted]
    rw [hcanonical]

end SqlScribe
