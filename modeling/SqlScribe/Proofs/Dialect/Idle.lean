import SqlScribe.Proofs.Clause.Muted
import SqlScribe.Proofs.Dialect.Terminator
import SqlScribe.Proofs.Pattern.Muted

/-!
# Rules and literals

When a rule that leaves the muted text and each of the literals alone leaves the text alone,
and what a pipeline of such rules does to the literals of a text that it finds nothing to
change in. Main statements:

* `TextRule.heeds_of_clear`, `TextRule.heeds_of_steady`: two kinds of rules that heed literals;
* `Pipeline.applied_eq_nil_iff`: no rule contributes exactly when each finds nothing to change;
* `Pipeline.Heeds.keeps_literals`: a pipeline of rules that heed literals writes them as they are.
-/

namespace SqlScribe

/-! ## Replacements that show -/

namespace TextRule

variable {r : TextRule}

/-- The rule changes every text that it finds something in. -/
def Tells (r : TextRule) : Prop :=
  ∀ t, r.applyTo t = t → ∀ m, .hit m ∉ Pattern.pieces r.pattern t

theorem tells_of_shrinks (h : Pattern.Shrinks r.pattern r.replacement) : r.Tells :=
  fun _ ht m => h.no_hit ht m

/-- What is put for a match that the pattern cannot begin with parts from it. -/
theorem diverges_of_clashes {w : Text} (hclash : r.pattern.clashes w = true) {m : Match}
    {b : Option Char} {t : Text} (hm : m.IsOf r.pattern b t) (hw : w <+: r.replacement m) :
    Text.Diverges (r.replacement m) m.text :=
  ((Pattern.diverges_of_clashes hclash hm.spells).widen hw).symm

theorem tells_of_clashes (w : Text) (hclash : r.pattern.clashes w = true)
    (hw : ∀ m, w <+: r.replacement m) : r.Tells := by
  intro t ht m hm
  obtain ⟨b, s, hof⟩ := Pattern.isOf_of_hit hm
  have hdiverges := fun m b t (hof : m.IsOf r.pattern b t) => diverges_of_clashes hclash hof (hw m)
  have hparts : Pattern.Parts r.pattern r.replacement :=
    fun m b t hof => Or.inr (hdiverges m b t hof)
  exact (hdiverges m b s hof).ne (hparts.eq_of_hit ht hm)

/-! ## Rules that heed literals -/

/-- A rule that leaves alone the muted text and every literal leaves alone the text, where
the literals hold no marks of rules. -/
def Heeds (r : TextRule) : Prop :=
  ∀ t : Text, t.Closed → Text.PlainFrom none t → r.applyTo t.mute = t.mute →
    (∀ w ∈ t.literals, r.applyTo (Text.quote w) = Text.quote w) → r.applyTo t = t

theorem heeds_of_clear (hclear : r.pattern.isClear = true) (hsome : r.pattern.takesSome = true)
    (htells : r.Tells) : r.Heeds := by
  intro t hclosed hplain hmute hliterals
  refine Pattern.replaceAll_eq_self _ fun v w ht => ?_
  subst ht
  by_cases hin : Text.closingAt none v = some '\''
  · exact Pattern.matchAt?_eq_none_of_literal hclear hsome hclosed hplain hin
      fun u hu => htells _ (hliterals u hu)
  · exact Pattern.matchAt?_eq_none_of_mute hclear hsome hplain hin (htells _ hmute)

theorem heeds_of_shrinks (h : (r.pattern.isClear && r.pattern.takesSome) = true)
    (hshrinks : Pattern.Shrinks r.pattern r.replacement) : r.Heeds := by
  rw [Bool.and_eq_true] at h
  exact heeds_of_clear h.1 h.2 (tells_of_shrinks hshrinks)

theorem heeds_of_clashes (w : Text)
    (h : (r.pattern.isClear && r.pattern.takesSome && r.pattern.clashes w) = true)
    (hw : ∀ m, w <+: r.replacement m) : r.Heeds := by
  rw [Bool.and_eq_true, Bool.and_eq_true] at h
  exact heeds_of_clear h.1.1 h.1.2 (tells_of_clashes w h.2 hw)

/-- A rule that may leave a match as it is heeds literals if its pattern passes the text and
the muted text in step, and what it leaves of the one it leaves of the other. -/
theorem heeds_of_steady (hsteady : r.pattern.isSteady = true)
    (hclear : r.pattern.isClear = true) (hsome : r.pattern.takesSome = true)
    (hveils : r.pattern.skipsVeils = true)
    (hparts : Pattern.Parts r.pattern r.replacement)
    (halike : ∀ m m' b t, m'.IsOf r.pattern b t → m.Alike m' → r.replacement m' = m'.text →
      r.replacement m = m.text)
    (halone : ∀ w : Text, (∀ c ∈ w, c ∉ ruleMarks) → r.applyTo (Text.quote w) = Text.quote w →
      ∀ m, .hit m ∉ Pattern.pieces r.pattern (Text.quote w)) : r.Heeds := by
  intro t hclosed hplain hmute hliterals
  have hin : ∀ v w, t = v ++ w → Text.closingAt none v = some '\'' →
      r.pattern.matchAt? v.getLast? w = none := by
    rintro v w rfl hin
    exact Pattern.matchAt?_eq_none_of_literal hclear hsome hclosed hplain hin
      fun u hu => halone u (hplain u hu) (hliterals u hu)
  refine Pattern.replaceAll_eq_self_of_hits fun m hm => ?_
  obtain ⟨m', hm', hmm'⟩ := Pattern.exists_hit_mute hsteady hsome hveils hclosed hplain hin hm
  obtain ⟨b, s, hof⟩ := Pattern.isOf_of_hit hm'
  exact halike m m' b s hof hmm' (hparts.eq_of_hit hmute hm')

end TextRule

/-! ## Stages in which nothing changes -/

/-- No rule of a stage is applied exactly when each finds nothing to change, and then the
state stays. -/
theorem Progress.foldl_applied_iff {σ ρ : Type} (name : ρ → Text) (rule? : ρ → σ → Option σ)
    (rules : List ρ) (g : Progress σ) :
    (rules.foldl (fun g r => g.step (name r) (rule? r)) g).applied = g.applied ↔
      ∀ r ∈ rules, rule? r g.state = none := by
  induction rules generalizing g with
  | nil => simp
  | cons r rules ih =>
    rw [List.foldl_cons, List.forall_mem_cons]
    cases hr : rule? r g.state with
    | none =>
      have hstep : g.step (name r) (rule? r) = { g with missed := g.missed ++ [name r] } := by
        rw [Progress.step, hr]
      rw [hstep]
      simpa using ih { g with missed := g.missed ++ [name r] }
    | some s =>
      have hstep : g.step (name r) (rule? r)
          = { g with state := s, applied := g.applied ++ [name r] } := by
        rw [Progress.step, hr]
      have hgrows := (Progress.grows name rule? rules
        { g with state := s, applied := g.applied ++ [name r] }).1
      rw [hstep]
      simp only [reduceCtorEq, false_and, iff_false]
      intro happlied
      rw [happlied] at hgrows
      have hlength := hgrows.length_le
      simp at hlength

theorem Progress.foldl_state_eq {σ ρ : Type} (name : ρ → Text) (rule? : ρ → σ → Option σ)
    {rules : List ρ} {g : Progress σ} (h : ∀ r ∈ rules, rule? r g.state = none) :
    (rules.foldl (fun g r => g.step (name r) (rule? r)) g).state = g.state := by
  rw [Progress.foldl_idle name rule? h]

/-! ## The names of the rules -/

/-- In the pipelines of the dialects the rules have names of their own. -/
theorem Dialect.nodup_ruleNames {d : Dialect} {p : Pipeline} (h : d.pipeline? = some p) :
    p.ruleNames.Nodup := by
  cases d with
  | canonical => exact absurd h (by simp [Dialect.pipeline?])
  | hive =>
    obtain rfl := Option.some.inj h
    decide +kernel
  | sybase =>
    obtain rfl := Option.some.inj h
    decide +kernel

/-! ## Pipelines in which nothing changes -/

namespace Pipeline

variable {p : Pipeline} {sql : Text}

/-- No rule of the pipeline finds anything to change in the text. -/
structure Idle (p : Pipeline) (sql : Text) : Prop where
  lexical : ∀ r ∈ p.lexical, r.applyTo sql = sql
  types : ∀ r ∈ p.types, ∀ c ∈ (Outline.scan sql).clauses, r.applyTo c.body = c.body
  functions : ∀ r ∈ p.functions, ∀ c ∈ (Outline.scan sql).clauses, r.applyTo c.body = c.body
  shape : ∀ r ∈ p.shape, r.reshape? (Outline.scan sql) = none

theorem runOnClauses_applied_iff (rules : List TextRule) (g : Progress Outline) :
    (runOnClauses rules g).applied = g.applied ↔
      ∀ r ∈ rules, ∀ c ∈ g.state.clauses, r.applyTo c.body = c.body := by
  rw [runOnClauses, Progress.foldl_applied_iff]
  simp only [TextRule.changeOutline?_eq_none_iff]

theorem runOnClauses_state_eq {rules : List TextRule} {g : Progress Outline}
    (h : ∀ r ∈ rules, ∀ c ∈ g.state.clauses, r.applyTo c.body = c.body) :
    (runOnClauses rules g).state = g.state :=
  Progress.foldl_state_eq _ _ fun r hr => TextRule.changeOutline?_eq_none_iff.2 (h r hr)

theorem runLexical_applied_iff :
    (p.runLexical sql).applied = [] ↔ ∀ r ∈ p.lexical, r.applyTo sql = sql := by
  refine
    (Progress.foldl_applied_iff TextRule.name TextRule.change? p.lexical ⟨sql, [], []⟩).trans ?_
  simp only [TextRule.change?_eq_none_iff]

theorem runLexical_state_eq (h : ∀ r ∈ p.lexical, r.applyTo sql = sql) :
    (p.runLexical sql).state = sql :=
  Progress.foldl_state_eq _ _ fun r hr => TextRule.change?_eq_none_iff.2 (h r hr)

/-- The outline in front of the last stage, when no rule has changed anything. -/
theorem beforeShape_idle (hlexical : ∀ r ∈ p.lexical, r.applyTo sql = sql)
    (htypes : ∀ r ∈ p.types, ∀ c ∈ (Outline.scan sql).clauses, r.applyTo c.body = c.body)
    (hfunctions : ∀ r ∈ p.functions, ∀ c ∈ (Outline.scan sql).clauses,
      r.applyTo c.body = c.body) :
    (p.beforeShape sql).state = Outline.scan sql ∧ (p.beforeShape sql).applied = [] := by
  have hstate : (outlined (p.runLexical sql)).state = Outline.scan sql :=
    congrArg Outline.scan (runLexical_state_eq hlexical)
  rw [← hstate] at htypes hfunctions
  have htyped := runOnClauses_state_eq htypes
  rw [← htyped] at hfunctions
  refine ⟨(runOnClauses_state_eq hfunctions).trans (htyped.trans hstate), ?_⟩
  rw [beforeShape, (runOnClauses_applied_iff _ _).2 hfunctions,
    (runOnClauses_applied_iff _ _).2 htypes]
  exact runLexical_applied_iff.2 hlexical

theorem Idle.outline (h : p.Idle sql) :
    (p.outline sql).state = Outline.scan sql ∧ (p.outline sql).applied = [] := by
  obtain ⟨hstate, happlied⟩ := beforeShape_idle h.lexical h.types h.functions
  have hshape := h.shape
  rw [← hstate] at hshape
  exact ⟨(Progress.foldl_state_eq _ _ hshape).trans hstate,
    ((Progress.foldl_applied_iff _ _ _ _).2 hshape).trans happlied⟩

/-- **When no rule contributes.** The report names no rule exactly when each of them finds
nothing to change in the text as it stands. -/
theorem applied_eq_nil_iff : (p.apply sql).applied = [] ↔ p.Idle sql := by
  refine ⟨fun h => ?_, fun h => h.outline.2⟩
  -- what a stage has applied stays in the report, so no stage has applied anything
  have hbefore : (p.beforeShape sql).applied = [] :=
    List.prefix_nil.1 (h ▸ (Progress.grows ShapeRule.name ShapeRule.reshape? p.shape _).1)
  have htyped : (runOnClauses p.types (outlined (p.runLexical sql))).applied = [] :=
    List.prefix_nil.1 (hbefore ▸
      (Progress.grows TextRule.name TextRule.changeOutline? p.functions _).1)
  have hlex : (outlined (p.runLexical sql)).applied = [] :=
    List.prefix_nil.1 (htyped ▸
      (Progress.grows TextRule.name TextRule.changeOutline? p.types _).1)
  have hlexical := runLexical_applied_iff.1 hlex
  have hstate : (outlined (p.runLexical sql)).state = Outline.scan sql :=
    congrArg Outline.scan (runLexical_state_eq hlexical)
  have htypes := (runOnClauses_applied_iff _ _).1 (htyped.trans hlex.symm)
  have hfunctions := (runOnClauses_applied_iff _ _).1 (hbefore.trans htyped.symm)
  rw [runOnClauses_state_eq htypes, hstate] at hfunctions
  rw [hstate] at htypes
  have hshape := (Progress.foldl_applied_iff ShapeRule.name ShapeRule.reshape? p.shape
    (p.beforeShape sql)).1 (h.trans hbefore.symm)
  rw [(beforeShape_idle hlexical htypes hfunctions).1] at hshape
  exact ⟨hlexical, htypes, hfunctions, hshape⟩

/-- What a pipeline reports when none of its rules finds anything to change. -/
theorem Idle.apply (h : p.Idle sql) :
    p.apply sql = ⟨(Outline.scan sql).render, [], p.ruleNames⟩ := by
  have hlexical : p.runLexical sql = ⟨sql, [], p.lexical.map TextRule.name⟩ :=
    Progress.foldl_idle _ _ fun r hr => TextRule.change?_eq_none_iff.2 (h.lexical r hr)
  have hstage : ∀ {rules : List TextRule} {missed : List Text},
      (∀ r ∈ rules, ∀ c ∈ (Outline.scan sql).clauses, r.applyTo c.body = c.body) →
      runOnClauses rules ⟨Outline.scan sql, [], missed⟩
        = ⟨Outline.scan sql, [], missed ++ rules.map TextRule.name⟩ := fun hrules =>
    Progress.foldl_idle _ _ fun r hr => TextRule.changeOutline?_eq_none_iff.2 (hrules r hr)
  have hbefore : p.beforeShape sql = ⟨Outline.scan sql, [],
      p.lexical.map TextRule.name ++ p.types.map TextRule.name
        ++ p.functions.map TextRule.name⟩ := by
    rw [beforeShape, hlexical]
    exact (congrArg (runOnClauses p.functions) (hstage h.types)).trans (hstage h.functions)
  have hshape : p.outline sql = { p.beforeShape sql with
      missed := (p.beforeShape sql).missed ++ p.shape.map ShapeRule.name } := by
    refine Progress.foldl_idle _ _ fun r hr => ?_
    rw [hbefore]
    exact h.shape r hr
  rw [Pipeline.apply, hshape, hbefore, ruleNames, List.map_append, List.map_append]

/-! ## Literals -/

/-- All rules of the pipeline heed literals, those of shape where the literals of bodies hold
no marks of rules. -/
structure Heeds (p : Pipeline) : Prop where
  lexical : ∀ r ∈ p.lexical, r.Heeds
  types : ∀ r ∈ p.types, r.Heeds
  functions : ∀ r ∈ p.functions, r.Heeds
  shape : ∀ r ∈ p.shape, ∀ o : Outline,
    (∀ c ∈ o.clauses, Text.PlainFrom none c.body) →
      r.reshape? o.mute = none → r.reshape? o = none

/-- A literal by itself is the only clause of its text. -/
theorem clauses_scan_quote {w : Text} (hw : '\'' ∉ w) :
    (Outline.scan (Text.quote w)).clauses = [⟨.leading, Text.quote w⟩] := by
  have hlast : (Text.quote w).getLast? = some '\'' := by
    rw [Text.quote, ← List.cons_append, List.getLast?_concat]
  have hkeep : ∀ q : Char → Bool, q '\'' = false →
      Text.dropEnd q (Text.quote w) = Text.quote w := fun q hq =>
    Text.dropEnd_eq_self fun c hc => by
      rw [hlast] at hc
      exact Option.some.inj hc ▸ hq
  have htrim : Text.trim (Text.quote w) = Text.quote w :=
    Text.trim_eq_self (fun c hc => by rw [← Option.some.inj hc]; decide) fun c hc => by
      rw [hlast] at hc
      rw [← Option.some.inj hc]
      decide
  have hbody : Outline.bodyOf (Text.quote w) = Text.quote w := by
    rw [Outline.bodyOf, htrim, hkeep _ (by decide), Text.trimEnd, hkeep _ (by decide)]
  have hsplit := (Outline.inert_quoted hw).split_append .leading none [] (Text.Apart.nil _)
  rw [List.append_nil] at hsplit
  rw [Outline.scan_clauses, hbody, Outline.clausesOf]
  have hparts : Outline.split .leading .top none 0 (Text.quote w) = (Text.quote w, []) := by
    refine hsplit.trans ?_
    rw [Outline.split, Outline.putFront, List.append_nil]
    rfl
  rw [hparts, htrim]
  rfl

/-- A rule of an idle pipeline leaves a literal alone. -/
theorem Idle.quote {w : Text} (hw : '\'' ∉ w) (h : p.Idle (Text.quote w)) :
    ∀ r ∈ p.lexical ++ p.types ++ p.functions, r.applyTo (Text.quote w) = Text.quote w := by
  have htypes := h.types
  have hfunctions := h.functions
  simp only [clauses_scan_quote hw, List.forall_mem_singleton] at htypes hfunctions
  intro r hr
  rcases List.mem_append.1 hr with hr | hr
  · rcases List.mem_append.1 hr with hr | hr
    · exact h.lexical r hr
    · exact htypes r hr
  · exact hfunctions r hr

/-- **Literals are left as they are.** A pipeline of rules that heed literals, idle on the
muted text and on each literal by itself, is idle on the text, and writes its literals as they
are but for runs of blanks. -/
theorem Heeds.keeps_literals (hp : p.Heeds) (hclosed : sql.Closed)
    (hplain : Text.PlainFrom none sql) (halone : ∀ w ∈ sql.literals, p.Idle (Text.quote w))
    (hmute : p.Idle sql.mute) :
    p.Idle sql ∧ (p.apply sql).text.literals = sql.literals.map Text.squeeze := by
  obtain ⟨hbodies, hliterals⟩ := Outline.literals_scan hclosed
  have hquote := fun w hw => (halone w hw).quote (Text.not_mem_of_mem_literalsFrom hw)
  have hbody : ∀ c ∈ (Outline.scan sql).clauses, ∀ w ∈ c.body.literals, w ∈ sql.literals :=
    fun c hc w hw => by
      rw [hliterals]
      exact List.mem_flatMap.2 ⟨c, hc, hw⟩
  have hplainBody : ∀ c ∈ (Outline.scan sql).clauses, Text.PlainFrom none c.body :=
    fun c hc w hw => hplain w (hbody c hc w hw)
  have hmuted := Outline.scan_mute hclosed
  have hclause : ∀ c ∈ (Outline.scan sql).clauses, c.mute ∈ (Outline.scan sql.mute).clauses :=
    fun c hc => by
      rw [hmuted, Outline.clauses_mute]
      exact List.mem_map_of_mem hc
  have hidle : p.Idle sql := by
    refine ⟨fun r hr => ?_, fun r hr c hc => ?_, fun r hr c hc => ?_, fun r hr => ?_⟩
    · exact hp.lexical r hr sql hclosed hplain (hmute.lexical r hr)
        fun w hw => hquote w hw r (by simp [hr])
    · exact hp.types r hr c.body (hbodies c hc) (hplainBody c hc)
        (hmute.types r hr c.mute (hclause c hc))
        fun w hw => hquote w (hbody c hc w hw) r (by simp [hr])
    · exact hp.functions r hr c.body (hbodies c hc) (hplainBody c hc)
        (hmute.functions r hr c.mute (hclause c hc))
        fun w hw => hquote w (hbody c hc w hw) r (by simp [hr])
    · exact hp.shape r hr _ hplainBody (hmuted ▸ hmute.shape r hr)
  refine ⟨hidle, ?_⟩
  have hstate := hidle.outline.1
  rw [Pipeline.apply, hstate, Outline.literals_render hbodies, ← hliterals]

end Pipeline

end SqlScribe
