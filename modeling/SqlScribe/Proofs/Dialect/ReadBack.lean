import SqlScribe.Dialect.Canonical
import SqlScribe.Proofs.Clause.Reading
import SqlScribe.Proofs.Dialect.Terminator

/-!
# Reading back what a pipeline returns

A pipeline takes the quotes off names, and what was quoted may be read as syntax then. The
text it returns has the clauses it was written from exactly when every body holds together
without its quotes. Main statements:

* `Pipeline.ordered_outline`: whatever the rules do, the clauses stay in order;
* `readsBack_iff_settled`: when the text of a pipeline is read back;
* `not_readsBack_quoted`: a keyword in a quoted name opens a clause.
-/

namespace SqlScribe

open Outline (Ordered Settled)

namespace Pipeline

/-- The rules of shape of the pipeline keep clauses in order. -/
def KeepsOrder (p : Pipeline) : Prop :=
  ∀ r ∈ p.shape, ∀ o o', r.reshape? o = some o' → Ordered o.clauses → Ordered o'.clauses

variable {p : Pipeline}

theorem ordered_runOnClauses (rules : List TextRule) {g : Progress Outline}
    (hg : Ordered g.state.clauses) : Ordered (runOnClauses rules g).state.clauses := by
  refine Progress.foldl_state (P := fun o : Outline => Ordered o.clauses) TextRule.name
    TextRule.changeOutline? (fun r _ o o' ho hr => ?_) hg
  obtain rfl := TextRule.eq_of_changeOutline? hr
  refine ho.of_kinds ?_
  simp [TextRule.applyToOutline]

/-- The clauses that a pipeline writes stand in order. -/
theorem ordered_outline (hp : p.KeepsOrder) (sql : Text) :
    Ordered (p.outline sql).state.clauses := by
  refine Progress.foldl_state (P := fun o : Outline => Ordered o.clauses) ShapeRule.name
    ShapeRule.reshape? (fun r hr o o' ho hr' => hp r hr o o' hr' ho) ?_
  exact ordered_runOnClauses _ (ordered_runOnClauses _ (Outline.ordered_scan _))

/-- The text that the pipeline returns, scanned again, has the clauses it was written from,
with the same words in their bodies. -/
def ReadsBack (p : Pipeline) (sql : Text) : Prop :=
  (Outline.scan (p.apply sql).text).clauses.map Clause.collapsed
    = (p.outline sql).state.clauses.map Clause.collapsed

instance (p : Pipeline) (sql : Text) : Decidable (p.ReadsBack sql) :=
  inferInstanceAs (Decidable (_ = _))

theorem readsBack_iff (hp : p.KeepsOrder) (sql : Text) :
    p.ReadsBack sql ↔ Settled (p.outline sql).state.clauses :=
  Outline.scan_render_iff (ordered_outline hp sql)

end Pipeline

theorem Hive.keepsOrder : Hive.pipeline.KeepsOrder :=
  fun _ hr => absurd hr List.not_mem_nil

/-- The count of a `TOP` goes to the place of a `LIMIT`. -/
theorem Sybase.ordered_topToLimit? {o o' : Outline} (h : topToLimit? o = some o')
    (ho : Ordered o.clauses) : Ordered o'.clauses := by
  unfold topToLimit? at h
  split at h
  · exact absurd h (by simp)
  · split at h
    · exact absurd h (by simp)
    · rw [Option.some.injEq] at h
      split at h
      · exact h ▸ ho.edit .select _
      · exact h ▸ (ho.edit .select _).set .limit _

theorem Sybase.keepsOrder : Sybase.pipeline.KeepsOrder := by
  intro r hr o o' h ho
  obtain rfl := List.mem_singleton.1 hr
  exact ordered_topToLimit? h ho

/-- **When a conversion is read back.** For every text in either dialect: what the pipeline
returns, scanned again, has the clauses that the pipeline wrote if and only if each of these
holds together by itself, so that no part of a body that had been quoted opens a clause or
leaves a quotation or a parenthesis open. -/
theorem readsBack_iff_settled (sql : Text) :
    (Hive.pipeline.ReadsBack sql ↔ Settled (Hive.pipeline.outline sql).state.clauses) ∧
      (Sybase.pipeline.ReadsBack sql ↔ Settled (Sybase.pipeline.outline sql).state.clauses) :=
  ⟨Pipeline.readsBack_iff Hive.keepsOrder sql, Pipeline.readsBack_iff Sybase.keepsOrder sql⟩

/-- A keyword in a quoted name opens a clause once the quotes are gone. -/
theorem not_readsBack_quoted :
    ¬ Hive.pipeline.ReadsBack "SELECT \x60a from b\x60 FROM t" ∧
      ¬ Sybase.pipeline.ReadsBack "SELECT [a from b] FROM t" := by
  decide +kernel

end SqlScribe
