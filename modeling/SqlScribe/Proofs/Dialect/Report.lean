import SqlScribe.Proofs.Dialect.Changes
import SqlScribe.Proofs.Dialect.Idle
import SqlScribe.Proofs.Dialect.Layout
import SqlScribe.Proofs.Dialect.TopCount

/-!
# Honest reports

A pipeline says of each of its rules whether it changed something. What it says is what a second
look at the run finds: each rule is run on what the rules in front of it have made, and leaves that
as it is, or does not. Main statements:

* `Progress.foldl_eq_verdicts`: what one stage adds to the report;
* `Sybase.topToLimit?_ne_some_self`: a count that is found changes the outline;
* `Pipeline.Tells.text_eq`, `Pipeline.Tells.applied_eq`, `Pipeline.Tells.missed_eq`: the text and
  the report of a whole pipeline;
* `Dialect.report_honest`: what the reports of the dialects say.
-/

namespace SqlScribe

open Outline

/-! ## The names in a list of verdicts -/

/-- The names with one of the two verdicts. -/
def namesWith (b : Bool) (vs : List (Text × Bool)) : List Text :=
  (vs.filter fun v => v.2 == b).map Prod.fst

section Names

variable {b : Bool} {n : Text} {vs us : List (Text × Bool)}

theorem namesWith_append (b : Bool) (vs us : List (Text × Bool)) :
    namesWith b (vs ++ us) = namesWith b vs ++ namesWith b us := by
  rw [namesWith, List.filter_append, List.map_append]
  rfl

theorem mem_namesWith : n ∈ namesWith b vs ↔ (n, b) ∈ vs := by
  simp only [namesWith, List.mem_map, List.mem_filter, beq_iff_eq]
  constructor
  · rintro ⟨⟨m, c⟩, ⟨hmem, rfl⟩, rfl⟩
    exact hmem
  · exact fun hmem => ⟨(n, b), ⟨hmem, rfl⟩, rfl⟩

theorem namesWith_sublist (b : Bool) (vs : List (Text × Bool)) :
    (namesWith b vs).Sublist (vs.map Prod.fst) :=
  List.filter_sublist.map Prod.fst

/-- Every name has one of the two verdicts. -/
theorem namesWith_perm (vs : List (Text × Bool)) :
    (namesWith false vs ++ namesWith true vs).Perm (vs.map Prod.fst) := by
  rw [namesWith, namesWith, ← List.map_append]
  refine List.Perm.map Prod.fst ?_
  have hother : (fun v : Text × Bool => v.2 == true) = fun v => !(v.2 == false) := by
    funext ⟨_, b⟩
    cases b <;> rfl
  rw [hother]
  exact List.filter_append_perm _ vs

/-- Where names are different, none has both verdicts. -/
theorem mem_namesWith_false_iff (h : (vs.map Prod.fst).Nodup) (hn : n ∈ vs.map Prod.fst) :
    n ∈ namesWith false vs ↔ n ∉ namesWith true vs := by
  have hperm := namesWith_perm vs
  constructor
  · exact fun hf ht => List.disjoint_of_nodup_append (hperm.nodup_iff.2 h) hf ht
  · exact fun ht => (List.mem_append.1 (hperm.mem_iff.2 hn)).resolve_right ht

end Names

/-! ## One stage -/

section Stage

variable {σ ρ : Type} [DecidableEq σ]

/-- The names of the rules in the order they are run, each with whether the rule leaves as it is
what the rules in front of it have made of `s`. -/
def verdicts (name : ρ → Text) (apply : σ → ρ → σ) : (s : σ) → List ρ → List (Text × Bool)
  | _, [] => []
  | s, r :: rules => (name r, decide (apply s r = s)) :: verdicts name apply (apply s r) rules

variable {name : ρ → Text} {apply : σ → ρ → σ}

theorem map_fst_verdicts (s : σ) (rules : List ρ) :
    (verdicts name apply s rules).map Prod.fst = rules.map name := by
  induction rules generalizing s with
  | nil => rfl
  | cons r rules ih => rw [verdicts, List.map_cons, List.map_cons, ih]

theorem mem_verdicts {n : Text} {b : Bool} {s : σ} {rules : List ρ} :
    (n, b) ∈ verdicts name apply s rules ↔ ∃ front r behind, rules = front ++ r :: behind ∧
      n = name r ∧ b = decide (apply (front.foldl apply s) r = front.foldl apply s) := by
  induction rules generalizing s with
  | nil => simp [verdicts]
  | cons r rules ih =>
    rw [verdicts, List.mem_cons, ih]
    constructor
    · rintro (h | ⟨front, r', behind, rfl, hn, hb⟩)
      · obtain ⟨rfl, rfl⟩ := Prod.mk.inj h
        exact ⟨[], r, rules, rfl, rfl, rfl⟩
      · exact ⟨r :: front, r', behind, rfl, hn, hb⟩
    · rintro ⟨front, r', behind, h, hn, hb⟩
      cases front with
      | nil =>
        obtain ⟨rfl, rfl⟩ := List.cons.inj h
        exact Or.inl (by rw [hn, hb, List.foldl_nil])
      | cons x front =>
        obtain ⟨rfl, rfl⟩ := List.cons.inj h
        exact Or.inr ⟨front, r', behind, rfl, hn, hb⟩

/-- **What one stage reports.** Where each rule finds something to change exactly if it makes
something else of the state, the names are added to the one list or the other by what the rules
really do. -/
theorem Progress.foldl_eq_verdicts (name : ρ → Text) (apply : σ → ρ → σ)
    (change? : ρ → σ → Option σ) {rules : List ρ}
    (h : ∀ r ∈ rules, ∀ s, change? r s = if apply s r = s then none else some (apply s r))
    (g : Progress σ) : rules.foldl (fun g r => g.step (name r) (change? r)) g =
      ⟨rules.foldl apply g.state, g.applied ++ namesWith false (verdicts name apply g.state rules),
        g.missed ++ namesWith true (verdicts name apply g.state rules)⟩ := by
  induction rules generalizing g with
  | nil => simp [verdicts, namesWith]
  | cons r rules ih =>
    obtain ⟨hr, hrest⟩ := List.forall_mem_cons.1 h
    rw [List.foldl_cons, ih hrest, List.foldl_cons, verdicts, Progress.step, hr]
    by_cases hsame : apply g.state r = g.state
    · simp [hsame, namesWith]
    · simp [hsame, namesWith]

end Stage

/-! ## Rules of shape -/

/-- What the rule makes of an outline is another outline. -/
def ShapeRule.Tells (r : ShapeRule) : Prop := ∀ o, r.reshape? o ≠ some o

theorem ShapeRule.Tells.reshape?_eq {r : ShapeRule} (h : r.Tells) (o : Outline) : r.reshape? o =
    if r.applyToOutline o = o then none else some (r.applyToOutline o) := by
  rw [applyToOutline]
  cases hreshape : r.reshape? o with
  | none => simp
  | some o' =>
    have hne : o' ≠ o := by
      rintro rfl
      exact h o' hreshape
    simp [hne]

namespace Sybase

open Pattern

/-- A count that goes leaves fewer characters in front of the columns. -/
theorem length_lt_of_topCount {body : Text} {m : Match} (h : topCount.matchAt? none body = some m) :
    (m.group 1 ++ m.after).length < body.length := by
  obtain ⟨x, rfl⟩ := exists_counted h
  obtain ⟨m', hm', hfront, -, hafter⟩ := x.matchAt?_text
  obtain rfl : m = m' := Option.some.inj (h.symm.trans hm')
  have hpos := List.length_pos_of_ne_nil x.isNumber.1
  simp only [hfront, hafter, Counted.text, List.length_append]
  omega

/-- A count that is found changes the columns. -/
theorem topToLimit?_ne_some_self (o : Outline) : topToLimit? o ≠ some o := by
  intro h
  rw [topToLimit?] at h
  split at h
  · exact absurd h (by simp)
  · next body hbody =>
    split at h
    · exact absurd h (by simp)
    · next m hm =>
      have hselected : (o.edit .select fun _ => m.group 1 ++ m.after).body? .select =
          some (m.group 1 ++ m.after) := by
        rw [body?_edit, if_pos rfl, hbody, Option.map_some]
      have hsame : o.body? .select = some (m.group 1 ++ m.after) := by
        conv_lhs => rw [← Option.some.inj h]
        split
        · exact hselected
        · rw [body?_set, if_neg (by decide), hselected]
      have hlt := length_lt_of_topCount hm
      rw [← Option.some.inj (hbody.symm.trans hsame)] at hlt
      exact Nat.lt_irrefl _ hlt

end Sybase

/-! ## Whole pipelines -/

/-- What the rules make of a text, one behind the other. -/
def rewritten (rules : List TextRule) (t : Text) : Text := rules.foldl (fun t r => r.applyTo t) t

/-- What the rules make of an outline, one behind the other. -/
def rewrittenOutline (rules : List TextRule) (o : Outline) : Outline :=
  rules.foldl (fun o r => r.applyToOutline o) o

/-- What the rules of shape make of an outline, one behind the other. -/
def reshaped (rules : List ShapeRule) (o : Outline) : Outline :=
  rules.foldl (fun o r => r.applyToOutline o) o

namespace Pipeline

/-- The rule of this name leaves as it is what it is run on: the text, the outline behind the
lexical rules, or the outline behind all rules on clauses, with the rules of its stage run that
stand in front of it. -/
inductive Leaves (p : Pipeline) (sql : Text) : Text → Prop where
  | lexical {front behind : List TextRule} {r : TextRule} (hrun : p.lexical = front ++ r :: behind)
      (hsame : r.applyTo (rewritten front sql) = rewritten front sql) : Leaves p sql r.name
  | clauses {front behind : List TextRule} {r : TextRule}
      (hrun : p.types ++ p.functions = front ++ r :: behind)
      (hsame : r.applyToOutline (rewrittenOutline front (scan (rewritten p.lexical sql))) =
        rewrittenOutline front (scan (rewritten p.lexical sql))) : Leaves p sql r.name
  | shape {front behind : List ShapeRule} {r : ShapeRule} (hrun : p.shape = front ++ r :: behind)
      (hsame : r.applyToOutline (reshaped front
          (rewrittenOutline (p.types ++ p.functions) (scan (rewritten p.lexical sql)))) =
        reshaped front
          (rewrittenOutline (p.types ++ p.functions) (scan (rewritten p.lexical sql)))) :
      Leaves p sql r.name

/-- The names of all rules in the order they are run, each with whether the rule leaves as it is
what it is run on. -/
def verdicts (p : Pipeline) (sql : Text) : List (Text × Bool) :=
  SqlScribe.verdicts TextRule.name (fun t r => r.applyTo t) sql p.lexical ++
    SqlScribe.verdicts TextRule.name (fun o r => r.applyToOutline o)
    (scan (rewritten p.lexical sql))
      (p.types ++ p.functions) ++
    SqlScribe.verdicts ShapeRule.name (fun o r => r.applyToOutline o)
      (rewrittenOutline (p.types ++ p.functions) (scan (rewritten p.lexical sql))) p.shape

variable {p : Pipeline} {sql n : Text}

theorem map_fst_verdicts (p : Pipeline) (sql : Text) :
    (p.verdicts sql).map Prod.fst = p.ruleNames := by
  rw [verdicts, List.map_append, List.map_append, SqlScribe.map_fst_verdicts,
    SqlScribe.map_fst_verdicts, SqlScribe.map_fst_verdicts, ruleNames, ← List.map_append,
    List.append_assoc p.lexical]

theorem mem_verdicts_true : (n, true) ∈ p.verdicts sql ↔ p.Leaves sql n := by
  rw [verdicts, List.mem_append, List.mem_append, mem_verdicts, mem_verdicts, mem_verdicts]
  simp only [eq_comm (a := true), decide_eq_true_eq]
  constructor
  · rintro ((⟨front, r, behind, hrun, rfl, hsame⟩ | ⟨front, r, behind, hrun, rfl, hsame⟩) |
      ⟨front, r, behind, hrun, rfl, hsame⟩)
    · exact .lexical hrun hsame
    · exact .clauses hrun hsame
    · exact .shape hrun hsame
  · rintro (⟨hrun, hsame⟩ | ⟨hrun, hsame⟩ | ⟨hrun, hsame⟩)
    · exact Or.inl (Or.inl ⟨_, _, _, hrun, rfl, hsame⟩)
    · exact Or.inl (Or.inr ⟨_, _, _, hrun, rfl, hsame⟩)
    · exact Or.inr ⟨_, _, _, hrun, rfl, hsame⟩

/-- All rules of shape tell what they do. -/
def Tells (p : Pipeline) : Prop := ∀ r ∈ p.shape, r.Tells

/-- **The report of a whole run** is what a second look at it finds. -/
theorem Tells.outline_eq (hp : p.Tells) (sql : Text) : p.outline sql =
    ⟨reshaped p.shape (rewrittenOutline (p.types ++ p.functions) (scan (rewritten p.lexical sql))),
      namesWith false (p.verdicts sql), namesWith true (p.verdicts sql)⟩ := by
  have hlexical : p.runLexical sql = ⟨rewritten p.lexical sql, _, _⟩ :=
    Progress.foldl_eq_verdicts TextRule.name (fun t r => r.applyTo t) TextRule.change?
      (fun r _ t => rfl) ⟨sql, [], []⟩
  have hclauses : ∀ g, runOnClauses p.functions (runOnClauses p.types g) =
      ⟨rewrittenOutline (p.types ++ p.functions) g.state, _, _⟩ := fun g => by
    rw [runOnClauses, runOnClauses, ← List.foldl_append]
    exact Progress.foldl_eq_verdicts TextRule.name (fun o r => r.applyToOutline o)
      TextRule.changeOutline? (fun r _ o => r.changeOutline?_eq_ite o) g
  have hshape : ∀ g, p.runShape g = ⟨reshaped p.shape g.state, _, _⟩ :=
    Progress.foldl_eq_verdicts ShapeRule.name (fun o r => r.applyToOutline o) ShapeRule.reshape?
      fun r hr o => (hp r hr).reshape?_eq o
  rw [outline, beforeShape, hshape, hclauses, outlined, hlexical, verdicts]
  simp only [namesWith_append, List.nil_append]

theorem Tells.text_eq (hp : p.Tells) (sql : Text) : (p.apply sql).text = (reshaped p.shape
    (rewrittenOutline (p.types ++ p.functions) (scan (rewritten p.lexical sql)))).render :=
  congrArg (fun g => g.state.render) (hp.outline_eq sql)

theorem Tells.applied_eq (hp : p.Tells) (sql : Text) :
    (p.apply sql).applied = namesWith false (p.verdicts sql) :=
      congrArg Progress.applied (hp.outline_eq sql)

theorem Tells.missed_eq (hp : p.Tells) (sql : Text) :
    (p.apply sql).missed = namesWith true (p.verdicts sql) :=
      congrArg Progress.missed (hp.outline_eq sql)

end Pipeline

/-- In the pipelines of the dialects the rules tell what they do. -/
theorem Dialect.tells_pipeline {d : Dialect} {p : Pipeline} (h : d.pipeline? = some p) :
    p.Tells := by
  cases d with
  | canonical => exact absurd h (by simp [Dialect.pipeline?])
  | hive =>
    obtain rfl := Option.some.inj h
    exact fun r hr => absurd hr List.not_mem_nil
  | sybase =>
    obtain rfl := Option.some.inj h
    intro r hr
    obtain rfl := List.mem_singleton.1 hr
    exact Sybase.topToLimit?_ne_some_self

/-- **The report is honest.** For every text each rule of a dialect is named once, among those that
were applied or among those that missed, in the order in which the rules are run. It is among those
that missed exactly if it leaves as it is what it is run on. Where no rule was applied, the text is
scanned and written and nothing else. The text is always what the rules, run one behind the other,
make of it: the lexical rules of the text, and all others of its outline. -/
theorem Dialect.report_honest {d : Dialect} {p : Pipeline} (h : d.pipeline? = some p) (sql : Text) :
    p.ruleNames.Nodup ∧ ((p.apply sql).applied ++ (p.apply sql).missed).Perm p.ruleNames ∧
      (p.apply sql).applied.Sublist p.ruleNames ∧ (p.apply sql).missed.Sublist p.ruleNames ∧
      (∀ n ∈ p.ruleNames, (n ∈ (p.apply sql).applied ↔ n ∉ (p.apply sql).missed) ∧
        (n ∈ (p.apply sql).missed ↔ p.Leaves sql n)) ∧
      ((p.apply sql).applied = [] → (p.apply sql).text = (Outline.scan sql).render) ∧
      (p.apply sql).text = (reshaped p.shape (rewrittenOutline (p.types ++ p.functions)
        (Outline.scan (rewritten p.lexical sql)))).render := by
  have htells := Dialect.tells_pipeline h
  have hnodup := Dialect.nodup_ruleNames h
  have hnames := p.map_fst_verdicts sql
  refine ⟨hnodup, ?_, ?_, ?_, fun n hn => ⟨?_, ?_⟩, fun hnone => ?_, htells.text_eq sql⟩
  · rw [htells.applied_eq, htells.missed_eq, ← hnames]
    exact namesWith_perm _
  · rw [htells.applied_eq, ← hnames]
    exact namesWith_sublist false _
  · rw [htells.missed_eq, ← hnames]
    exact namesWith_sublist true _
  · rw [htells.applied_eq, htells.missed_eq]
    exact mem_namesWith_false_iff (hnames.symm ▸ hnodup) (hnames.symm ▸ hn)
  · rw [htells.missed_eq, mem_namesWith, Pipeline.mem_verdicts_true]
  · rw [(Pipeline.applied_eq_nil_iff.1 hnone).apply]

/-- `ISNULL` is rewritten in the first clause and found in no other one: the rule is applied. There
is no `LEN`, and the rule for it misses. -/
theorem Dialect.report_honest_isnull : Dialect.sybase.pipeline? = some Sybase.pipeline ∧
    ¬ Sybase.pipeline.Leaves "SELECT ISNULL(a,0) FROM t" "sybase.isnull" ∧
      Sybase.pipeline.Leaves "SELECT ISNULL(a,0) FROM t" "sybase.len" := by
  obtain ⟨-, -, -, -, hreport, -⟩ :=
    Dialect.report_honest (d := .sybase) rfl "SELECT ISNULL(a,0) FROM t"
  obtain ⟨happlied, hisnullNames, hlenNames⟩ :
      (Sybase.pipeline.apply "SELECT ISNULL(a,0) FROM t").applied = ["sybase.isnull"] ∧
      "sybase.isnull".toList ∈ Sybase.pipeline.ruleNames ∧
      "sybase.len".toList ∈ Sybase.pipeline.ruleNames := by decide +kernel
  obtain ⟨hisnull, hisnullLeaves⟩ := hreport _ hisnullNames
  obtain ⟨hlen, hlenLeaves⟩ := hreport _ hlenNames
  rw [happlied] at hisnull hlen
  refine ⟨rfl, fun hleaves => ?_, hlenLeaves.1 (by_contra fun hmissed => ?_)⟩
  · exact hisnull.1 List.mem_cons_self (hisnullLeaves.2 hleaves)
  · exact absurd (hlen.2 hmissed) (by decide)

end SqlScribe
