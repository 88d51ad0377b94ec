import SqlScribe.Dialect.Canonical
import SqlScribe.Proofs.Clause.Bodies
import SqlScribe.Proofs.Dialect.Detection
import SqlScribe.Proofs.Pattern.Search
import SqlScribe.Proofs.Statement.Gate

/-!
# Rules and the end of a statement

No rule of a dialect touches the `;` that ends a statement the gate let through. The
lexical rules find nothing in such a statement, since comments are forbidden and it has
but one line; the others work on clauses, which are without semicolons, and write none.
Main statements:

* `KeepsEnd.runLexical`, `KeepsEnd.clean_outline`: what the two stages do to semicolons;
* `apply_keepsEnd`: an accepted normal form is brought to one with a single semicolon.
-/

namespace SqlScribe

/-! ## One rule -/

/-- A replacement holds the character `x` only if the match does. -/
def TextRule.Avoids (r : TextRule) (x : Char) : Prop :=
  ∀ m before s, Match.IsOf m r.pattern before s → x ∉ m.text → x ∉ r.replacement m

namespace TextRule

theorem avoids_const {x : Char} {u : Text} (h : x ∉ u) (name : Text) (p : Pattern) :
    (TextRule.mk name p fun _ => u).Avoids x :=
  fun _ _ _ _ _ => h

theorem Avoids.applyTo {r : TextRule} {x : Char} (h : r.Avoids x) {t : Text} (ht : x ∉ t) :
    x ∉ r.applyTo t := by
  have hne : ∀ c ∈ r.applyTo t, c ≠ x := by
    refine Pattern.replaceAll_forall (fun c hc => ?_) fun m before s hm hmt c hc => ?_
    · rintro rfl
      exact ht hc
    · rintro rfl
      exact h m before s hm (fun hx => hmt c hx rfl) hc
  exact fun hx => hne x hx rfl

theorem Avoids.applyToOutline {r : TextRule} {x : Char} (h : r.Avoids x) {o : Outline}
    (ho : o.Avoids x) : (r.applyToOutline o).Avoids x := by
  intro cl hcl
  obtain ⟨old, hold, rfl⟩ := List.mem_map.1 hcl
  exact h.applyTo (ho old hold)

end TextRule

/-! ## A stage of rules -/

/-- What one rule keeps, a list of rules keeps. -/
theorem Progress.foldl_state {σ ρ : Type} {P : σ → Prop} (name : ρ → Text)
    (rule? : ρ → σ → Option σ) {rules : List ρ}
    (h : ∀ r ∈ rules, ∀ s s', P s → rule? r s = some s' → P s') {g : Progress σ}
    (hg : P g.state) : P (rules.foldl (fun g r => g.step (name r) (rule? r)) g).state := by
  induction rules generalizing g with
  | nil => exact hg
  | cons r rules ih =>
    rw [List.foldl_cons]
    refine ih (fun r' hr' => h r' (List.mem_cons_of_mem _ hr')) ?_
    rw [Progress.step]
    split
    · next s hs => exact h r List.mem_cons_self _ s hg hs
    · exact hg

/-- The names of the rules are only added to. -/
theorem Progress.grows {σ ρ : Type} (name : ρ → Text) (rule? : ρ → σ → Option σ)
    (rules : List ρ) (g : Progress σ) :
    g.applied <+: (rules.foldl (fun g r => g.step (name r) (rule? r)) g).applied ∧
      g.missed <+: (rules.foldl (fun g r => g.step (name r) (rule? r)) g).missed := by
  induction rules generalizing g with
  | nil => exact ⟨List.prefix_rfl, List.prefix_rfl⟩
  | cons r rules ih =>
    obtain ⟨happlied, hmissed⟩ := ih (g.step (name r) (rule? r))
    refine ⟨List.IsPrefix.trans ?_ happlied, List.IsPrefix.trans ?_ hmissed⟩ <;>
      unfold Progress.step <;> split <;>
      first | exact List.prefix_rfl | exact List.prefix_append _ _

/-- A stage in which no rule finds anything adds the names of its rules to those that missed. -/
theorem Progress.foldl_idle {σ ρ : Type} (name : ρ → Text) (rule? : ρ → σ → Option σ)
    {rules : List ρ} {g : Progress σ} (h : ∀ r ∈ rules, rule? r g.state = none) :
    rules.foldl (fun g r => g.step (name r) (rule? r)) g
      = { g with missed := g.missed ++ rules.map name } := by
  induction rules generalizing g with
  | nil => simp
  | cons r rules ih =>
    obtain ⟨hr, hrest⟩ := List.forall_mem_cons.1 h
    have hstep : g.step (name r) (rule? r) = { g with missed := g.missed ++ [name r] } := by
      rw [Progress.step, hr]
    rw [List.foldl_cons, hstep, ih (g := { g with missed := g.missed ++ [name r] }) hrest]
    simp

namespace Pipeline

/-- The rules of the pipeline keep the `;` at the end of accepted normal forms the only one. -/
structure KeepsEnd (p : Pipeline) : Prop where
  lexical : ∀ r ∈ p.lexical, ∀ b, Statement.IsBody b → Statement.Accepted (b ++ [';']) →
    r.applyTo (b ++ [';']) = b ++ [';']
  types : ∀ r ∈ p.types, r.Avoids ';'
  functions : ∀ r ∈ p.functions, r.Avoids ';'
  shape : ∀ r ∈ p.shape, ∀ o o', r.reshape? o = some o' → o.Avoids ';' →
    o'.Avoids ';' ∧ o'.terminated = o.terminated

/-- A terminated outline without semicolons in its clauses. -/
def Clean (o : Outline) : Prop := o.Avoids ';' ∧ o.terminated = true

/-- A stage changes the outline rule by rule. -/
theorem runOnClauses_state (rules : List TextRule) (g : Progress Outline) :
    (runOnClauses rules g).state = rules.foldl (fun o r => r.applyToOutline o) g.state := by
  induction rules generalizing g with
  | nil => rfl
  | cons r rules ih =>
    have hstep : (g.step r.name r.changeOutline?).state = r.applyToOutline g.state := by
      rw [← TextRule.getD_changeOutline?, Progress.step]
      cases r.changeOutline? g.state <;> rfl
    rw [runOnClauses, List.foldl_cons, List.foldl_cons, ← hstep]
    exact ih _

/-- What the lexical rules missed stays in the report. -/
theorem missed_runLexical (p : Pipeline) (sql : Text) :
    (p.runLexical sql).missed <+: (p.apply sql).missed := by
  have htypes := (Progress.grows TextRule.name TextRule.changeOutline? p.types
    (outlined (p.runLexical sql))).2
  have hfunctions := (Progress.grows TextRule.name TextRule.changeOutline? p.functions
    (runOnClauses p.types (outlined (p.runLexical sql)))).2
  have hshape := (Progress.grows ShapeRule.name ShapeRule.reshape? p.shape (p.beforeShape sql)).2
  exact (htypes.trans hfunctions).trans hshape

variable {p : Pipeline} {b : Text}

/-- The lexical rules find nothing in an accepted normal form. -/
theorem KeepsEnd.runLexical (h : p.KeepsEnd) (hb : Statement.IsBody b)
    (hacc : Statement.Accepted (b ++ [';'])) :
    p.runLexical (b ++ [';']) = ⟨b ++ [';'], [], p.lexical.map TextRule.name⟩ :=
  Progress.foldl_idle _ _ fun r hr => TextRule.change?_eq_none_iff.2 (h.lexical r hr b hb hacc)

theorem clean_runOnClauses {rules : List TextRule} (h : ∀ r ∈ rules, r.Avoids ';')
    {g : Progress Outline} (hg : Clean g.state) : Clean (runOnClauses rules g).state := by
  refine Progress.foldl_state TextRule.name TextRule.changeOutline? (fun r hr o o' ho hr' => ?_) hg
  obtain rfl := TextRule.eq_of_changeOutline? hr'
  exact ⟨(h r hr).applyToOutline ho.1, ho.2⟩

theorem KeepsEnd.clean_outline (h : p.KeepsEnd) (hb : Statement.IsBody b)
    (hacc : Statement.Accepted (b ++ [';'])) : Clean (p.outline (b ++ [';'])).state := by
  have hspaced := Statement.singleSpaced_body_semicolon hb
  have hscan : Clean (outlined (p.runLexical (b ++ [';']))).state := by
    rw [outlined, h.runLexical hb hacc]
    exact ⟨Outline.scan_avoids hspaced (Statement.semicolon_not_mem_of_accepted hb hacc),
      Outline.scan_terminated hspaced⟩
  refine Progress.foldl_state (P := Clean) ShapeRule.name ShapeRule.reshape?
    (fun r hr o o' ho hr' => ?_) (clean_runOnClauses h.functions (clean_runOnClauses h.types hscan))
  obtain ⟨hav, hterm⟩ := h.shape r hr o o' hr' ho.1
  exact ⟨hav, hterm.trans ho.2⟩

/-- **The end of a statement.** What a pipeline makes of an accepted normal form is a
single-spaced text without semicolons, with one behind it. -/
theorem apply_keepsEnd (h : p.KeepsEnd) (hb : Statement.IsBody b)
    (hacc : Statement.Accepted (b ++ [';'])) :
    ∃ b', (p.apply (b ++ [';'])).text = b' ++ [';'] ∧ Statement.IsBody b' := by
  obtain ⟨hav, hterm⟩ := h.clean_outline hb hacc
  refine ⟨Text.collapse (Text.join " "
    ((p.outline (b ++ [';'])).state.clauses.map Outline.writeClause)), ?_,
    Text.singleSpaced_collapse _, fun c hc => ?_⟩
  · rw [apply, Outline.render, if_pos hterm]
  · rw [Statement.isTerminator, Bool.or_eq_false_iff]
    constructor
    · refine beq_eq_false_iff_ne.2 ?_
      rintro rfl
      exact Outline.semicolon_not_mem_collapse hav (List.mem_of_getLast? hc)
    · by_contra hblank
      have hs := Text.singleSpaced_collapse
        (Text.join " " ((p.outline (b ++ [';'])).state.clauses.map Outline.writeClause))
      have := hs.only_spaces c (List.mem_of_getLast? hc) (by simpa using hblank)
      exact hs.last_ne (this ▸ hc)

end Pipeline

end SqlScribe
