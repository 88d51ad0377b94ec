import SqlScribe.Proofs.Generation.Fallback
import SqlScribe.Proofs.Generation.Handover

/-!
# Completions and statements of users

The statement in a completion goes the way of a statement that a user sends in: what is left
of the completion is in normal form already, the same gate stands in front of the conversion
and behind it, and neither asks who wrote the statement. Main statements:

* `Statement.toCanonical_provenance`: a conversion does not ask who wrote the statement;
* `alike_ofCompletion`: a completion and the statement in it fare alike;
* `answer_alike_executeSql`: a question is answered by a completion exactly where the
  statement in it can be run.
-/

namespace SqlScribe

/-! ## Conversions -/

/-- The conversion of the same text from another hand. -/
def Conversion.from (r : Conversion) (p : Provenance) : Conversion where
  statement := { r.statement with provenance := p }
  source := { r.source with provenance := p }
  applied := r.applied
  missed := r.missed

/-- A conversion does not ask who wrote the statement. -/
theorem Statement.toCanonical_provenance (text : Text) (d : Dialect) (p q : Provenance) :
    toCanonical ⟨text, d, q⟩ = (toCanonical ⟨text, d, p⟩).map (·.from q) := by
  unfold toCanonical
  simp only
  cases d.pipeline? with
  | none =>
    simp only
    cases rejection? text <;> rfl
  | some rules =>
    simp only
    cases rejection? (rules.apply text).text <;> rfl

/-- The statement a conversion gives comes from the hand the converted one came from. -/
theorem Statement.provenance_of_toCanonical {s : Statement} {r : Conversion}
    (h : s.toCanonical = .ok r) : r.statement.provenance = s.provenance := by
  unfold toCanonical at h
  split at h
  · split at h
    · exact absurd h (by simp)
    · obtain rfl := Except.ok.inj h
      rfl
  · simp only at h
    split at h
    · exact absurd h (by simp)
    · obtain rfl := Except.ok.inj h
      rfl

/-! ## Alike answers -/

/-- Two answers that differ in nothing but the hand their statements come from. -/
structure Answer.Alike (a b : Answer) : Prop where
  text : a.statement.text = b.statement.text
  dialect : a.statement.dialect = b.statement.dialect
  source : a.source.map Statement.text = b.source.map Statement.text
  degradations : a.degradations = b.degradations

/-- How a completion fares against a statement of a user. -/
inductive FareAlike : Except Degradation Answer → Except AnswerError Answer → Prop where
  | accepted {a b : Answer} (hmodel : a.statement.provenance = .modelGenerated)
      (h : a.Alike b) : FareAlike (.ok a) (.ok b)
  | refused (r : Rejection) :
      FareAlike (.error (.modelOutputRejected r)) (.error (.rejected r))

theorem Answer.alike_ofConversion (r : Conversion) (p : Provenance) :
    (ofConversion r).Alike (ofConversion (r.from p)) := by
  refine ⟨rfl, rfl, ?_, rfl⟩
  cases h : r.source.dialect.isAuxiliary <;> simp [ofConversion, Conversion.from, h]

/-- What is left of a completion is in normal form. -/
theorem Completion.normalize_clean {raw : Text} (h : clean raw ≠ []) :
    Statement.normalize (clean raw) = clean raw := by
  rcases clean_eq raw with hc | ⟨sql, hc⟩
  · exact absurd hc h
  · rw [hc, Statement.normalize_normalize]

/-- A completion and the statement in it, sent in by a user, fare alike. -/
theorem alike_ofCompletion {raw : Text} (h : Completion.clean raw ≠ []) (d : Dialect) :
    FareAlike (Answer.ofCompletion raw d) (answerOfSql (Completion.clean raw) d) := by
  have hne : (Completion.clean raw).isEmpty = false := by simpa using h
  simp only [Answer.ofCompletion, answerOfSql, hne, Completion.normalize_clean h,
    Bool.false_eq_true, if_false]
  cases Statement.rejection? (Completion.clean raw) with
  | some r => exact .refused r
  | none =>
    simp only
    rw [Statement.toCanonical_provenance _ d .modelGenerated .userSupplied]
    cases hconv : Statement.toCanonical ⟨Completion.clean raw, d, .modelGenerated⟩ with
    | error r => exact .refused r
    | ok r =>
      exact .accepted (Statement.provenance_of_toCanonical hconv)
        (Answer.alike_ofConversion r .userSupplied)

/-! ## Runs -/

/-- The rules write every statement themselves. -/
theorem provenance_of_ofRules {question : Text} {s : Schema} {failure : Option Degradation}
    {a : Answer} (h : Answer.ofRules question s failure = .ok a) :
    a.statement.provenance = .ruleGenerated := by
  unfold Answer.ofRules answerByRules at h
  simp only at h
  split at h
  · exact absurd h (by simp)
  · next r hr =>
    obtain rfl := Except.ok.inj h
    split at hr
    · exact absurd hr (by simp)
    · next st hst =>
      split at hr
      · exact absurd hr (by simp)
      · obtain rfl := Except.ok.inj hr
        obtain ⟨p, -, rfl⟩ := Request.build_eq_ok_iff.1 hst
        rfl

/-- With an engine that has rows, a statement of a user comes to its answer. -/
theorem result_executeSql_of_ok {Row : Type} {engine : Engine Row} {sql : Text} {d : Dialect}
    {b : Answer} (hengine : ∃ rows, engine b.statement.text = .ok rows)
    (h : answerOfSql sql d = .ok b) :
    ∃ rows, (executeSql sql d engine).result = .ok ⟨b, rows⟩ := by
  obtain ⟨rows, hrows⟩ := hengine
  refine ⟨rows, ?_⟩
  rw [executeSql, h, Desk.execute]
  simp only [hrows]

/-- A statement of a user that has no answer is not run. -/
theorem result_executeSql_of_error {Row : Type} (engine : Engine Row) {sql : Text} {d : Dialect}
    {e : AnswerError} (h : answerOfSql sql d = .error e) :
    (executeSql sql d engine).result = .error e := by
  rw [executeSql, h, Desk.execute]

/-- **One gate for all.** A completion that something is left of answers a question exactly
where the statement in it, sent in by a user, can be run. Then both have the same text,
source and degradations, and otherwise both are refused for the same reason, with which the
question falls back on the rules. -/
theorem answer_alike_executeSql {raw : Text} (hraw : Completion.clean raw ≠ []) (d : Dialect)
    (question : Text) (s : Schema) {Row : Type} (engine : Engine Row)
    (hengine : ∀ t, ∃ rows, engine t = .ok rows) :
    ((∃ a, answer question s (some raw) d = .ok a ∧ a.statement.provenance = .modelGenerated) ↔
      ∃ x, (executeSql (Completion.clean raw) d engine).result = .ok x) ∧
    (∀ a x, answer question s (some raw) d = .ok a → a.statement.provenance = .modelGenerated →
      (executeSql (Completion.clean raw) d engine).result = .ok x → a.Alike x.answer) ∧
    ((∀ x, (executeSql (Completion.clean raw) d engine).result ≠ .ok x) →
      ∃ r, (executeSql (Completion.clean raw) d engine).result = .error (.rejected r) ∧
        Answer.ofCompletion raw d = .error (.modelOutputRejected r) ∧
        FallsBack (.modelOutputRejected r) (answer question s none d)
          (answer question s (some raw) d)) := by
  have halike := alike_ofCompletion hraw d
  cases hmodel : Answer.ofCompletion raw d with
  | ok a =>
    have hanswer := answer_of_ofCompletion hmodel question s
    rw [hmodel] at halike
    cases huser : answerOfSql (Completion.clean raw) d with
    | error e =>
      rw [huser] at halike
      cases halike
    | ok b =>
      rw [huser] at halike
      obtain ⟨rows, hrows⟩ := result_executeSql_of_ok (hengine _) huser
      cases halike with
      | accepted hmade hab =>
        refine ⟨⟨fun _ => ⟨_, hrows⟩, fun _ => ⟨a, hanswer, hmade⟩⟩, ?_,
          fun hnone => absurd hrows (hnone _)⟩
        intro a' x ha' _ hx
        obtain rfl := Except.ok.inj (hanswer.symm.trans ha')
        obtain rfl := Except.ok.inj (hrows.symm.trans hx)
        exact hab
  | error failure =>
    have hback := fallsBack_of_ofCompletion hmodel question s
    have hrules : ∀ a, answer question s (some raw) d = .ok a →
        a.statement.provenance ≠ .modelGenerated := by
      intro a ha
      simp only [answer, answerWith, hmodel] at ha
      simp [provenance_of_ofRules ha]
    rw [hmodel] at halike
    cases huser : answerOfSql (Completion.clean raw) d with
    | ok b =>
      rw [huser] at halike
      cases halike
    | error e =>
      rw [huser] at halike
      have hrun := result_executeSql_of_error engine huser
      cases halike with
      | refused r =>
        refine ⟨⟨?_, ?_⟩, ?_, fun _ => ⟨r, hrun, rfl, hback⟩⟩
        · intro hanswered
          obtain ⟨a, ha, hmade⟩ := hanswered
          exact absurd hmade (hrules a ha)
        · intro hexecuted
          obtain ⟨x, hx⟩ := hexecuted
          exact absurd (hrun.symm.trans hx) (by simp)
        · intro a x ha hmade
          exact absurd hmade (hrules a ha)

/-- A labelled statement can be run, and so the model answers with it. -/
theorem answer_alike_executeSql_labelled :
    Completion.clean "SQL: SELECT 1" ≠ [] ∧
      ∃ a, answer "?" .humanResources (some "SQL: SELECT 1") .canonical = .ok a ∧
        a.statement.provenance = .modelGenerated := by
  have hclean : Completion.clean "SQL: SELECT 1" = Statement.normalize "SELECT 1" := by
    decide +kernel
  have hraw : Completion.clean "SQL: SELECT 1" ≠ [] := by
    rw [hclean]
    decide
  have hready : Statement.Ready (Completion.clean "SQL: SELECT 1") :=
    hclean ▸ Statement.ready_normalize (by decide +kernel)
  let engine : Engine Unit := fun _ => .ok [()]
  have hrows : ∃ rows, engine (Completion.clean "SQL: SELECT 1") = .ok rows := ⟨[()], rfl⟩
  obtain ⟨rows, hrun⟩ := result_executeSql_of_ok hrows (answerOfSql_of_ready hready)
  obtain ⟨hiff, -, -⟩ := answer_alike_executeSql hraw .canonical "?" .humanResources engine
    fun _ => ⟨[()], rfl⟩
  exact ⟨hraw, hiff.2 ⟨_, hrun⟩⟩

end SqlScribe
