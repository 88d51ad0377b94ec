import SqlScribe.Generation.Desk
import SqlScribe.Proofs.Dialect.Rules
import SqlScribe.Proofs.Plan.Check

/-!
# What is handed to an engine

Statements reach an engine from three hands: the rules, a completion model, and a user.
All of them are brought to normal form and pass the gate, and a conversion keeps the
normal form. Main statements:

* `ready_toCanonical`: a conversion keeps a statement ready;
* `ready_of_answerWith`, `ready_of_answerOfSql`: every answer is ready;
* `handed_guarded`: what any run of a desk hands over, and when it hands over nothing.
-/

namespace SqlScribe

namespace Statement

/-- A text that is ready to be run: a normal form that the gate lets through. -/
structure Ready (t : Text) : Prop where
  normal : ∃ b, t = b ++ [';'] ∧ IsBody b
  accepted : Accepted t

/-- What an engine may be given: one short `SELECT`, on one line with single spaces for
layout, with one semicolon, which is its last character. -/
structure Executable (t : Text) : Prop where
  accepted : Accepted t
  terminated : ∃ body, t = body ++ [';'] ∧ ';' ∉ body
  spaced : Text.SingleSpaced t

theorem ready_normalize {sql : Text} (h : Accepted (normalize sql)) : Ready (normalize sql) :=
  ⟨⟨bodyText sql, rfl, isBody_bodyText sql⟩, h⟩

theorem Ready.executable {t : Text} (h : Ready t) : Executable t := by
  obtain ⟨b, rfl, hb⟩ := h.normal
  exact ⟨h.accepted, ⟨b, rfl, semicolon_not_mem_of_accepted hb h.accepted⟩,
    singleSpaced_body_semicolon hb⟩

theorem Ready.normalize_eq_self {t : Text} (h : Ready t) : normalize t = t := by
  obtain ⟨b, rfl, hb⟩ := h.normal
  exact normalize_of_body hb

theorem rejection?_eq_none_of_accepted {t : Text} (h : Accepted t) : rejection? t = none := h

/-! ## Conversions -/

/-- A statement that is ready stays ready when it is converted. -/
theorem ready_toCanonical {s : Statement} {r : Conversion} (hs : Ready s.text)
    (h : s.toCanonical = .ok r) : Ready r.statement.text := by
  unfold toCanonical at h
  split at h
  · rw [rejection?_eq_none_of_accepted hs.accepted] at h
    obtain rfl := Except.ok.inj h
    exact hs
  · next p hp =>
    simp only at h
    split at h
    · exact absurd h (by simp)
    · next hacc =>
      obtain ⟨b, hb, hbody⟩ := hs.normal
      have haccs := hs.accepted
      obtain rfl := Except.ok.inj h
      rw [hb] at hacc haccs ⊢
      obtain ⟨b', hb', hbody'⟩ := Pipeline.apply_keepsEnd (Dialect.keepsEnd hp) hbody haccs
      exact ⟨⟨b', hb', hbody'⟩, hacc⟩

/-- A canonical statement that is ready is converted to itself. -/
theorem toCanonical_of_ready {s : Statement} (hd : s.dialect = .canonical) (h : Ready s.text) :
    s.toCanonical = .ok ⟨s, s, [], []⟩ := by
  rw [toCanonical, hd, Dialect.pipeline?, rejection?_eq_none_of_accepted h.accepted]

end Statement

/-! ## Answers -/

/-- What is left of a completion is nothing or a normal form. -/
theorem Completion.clean_eq (raw : Text) :
    clean raw = [] ∨ ∃ sql, clean raw = Statement.normalize sql := by
  rw [clean]
  split
  · exact Or.inl rfl
  · exact Or.inr ⟨_, rfl⟩

/-- The answer of a completion is what the statement left of it is converted to. -/
theorem Answer.conversion_of_ofCompletion {raw : Text} {d : Dialect} {a : Answer}
    (h : ofCompletion raw d = .ok a) :
    Completion.clean raw ≠ [] ∧ Statement.Accepted (Completion.clean raw) ∧
      ∃ r, Statement.toCanonical ⟨Completion.clean raw, d, .modelGenerated⟩ = .ok r ∧
        a = ofConversion r := by
  rw [ofCompletion] at h
  split at h
  · exact absurd h (by simp)
  · next hne =>
    split at h
    · exact absurd h (by simp)
    · next hacc =>
      split at h
      · exact absurd h (by simp)
      · next r hr =>
        exact ⟨by simpa using hne, hacc, r, hr, (Except.ok.inj h).symm⟩

theorem Answer.ready_of_ofCompletion {raw : Text} {d : Dialect} {a : Answer}
    (h : ofCompletion raw d = .ok a) : Statement.Ready a.statement.text := by
  obtain ⟨hne, hacc, r, hr, rfl⟩ := conversion_of_ofCompletion h
  rcases Completion.clean_eq raw with hc | ⟨sql, hc⟩
  · exact absurd hc hne
  · rw [hc] at hacc hr
    exact Statement.ready_toCanonical (Statement.ready_normalize hacc) hr

theorem ready_of_answerByRules {question : Text} {s : Schema} {a : RuleAnswer}
    (h : answerByRules question s = .ok a) : Statement.Ready a.statement.text := by
  rw [answerByRules] at h
  split at h
  · exact absurd h (by simp)
  · next st hst =>
    split at h
    · exact absurd h (by simp)
    · next hacc =>
      obtain rfl := Except.ok.inj h
      obtain ⟨p, -, rfl⟩ := Request.build_eq_ok_iff.1 hst
      exact Statement.ready_normalize hacc

theorem Answer.ready_of_ofRules {question : Text} {s : Schema} {failure : Option Degradation}
    {a : Answer} (h : ofRules question s failure = .ok a) : Statement.Ready a.statement.text := by
  rw [ofRules] at h
  split at h
  · exact absurd h (by simp)
  · next r hr =>
    obtain rfl := Except.ok.inj h
    exact ready_of_answerByRules hr

/-- Every answer to a question is ready to be run. -/
theorem ready_of_answerWith {question : Text} {s : Schema} {outcome : ModelOutcome} {d : Dialect}
    {a : Answer} (h : answerWith question s outcome d = .ok a) :
    Statement.Ready a.statement.text := by
  unfold answerWith at h
  split at h
  · exact Answer.ready_of_ofRules h
  · exact Answer.ready_of_ofRules h
  · split at h
    · next a' ha' =>
      obtain rfl := Except.ok.inj h
      exact Answer.ready_of_ofCompletion ha'
    · exact Answer.ready_of_ofRules h

/-- The answer to a statement of a user is what its normal form is converted to. -/
theorem conversion_of_answerOfSql {sql : Text} {d : Dialect} {a : Answer}
    (h : answerOfSql sql d = .ok a) :
    Statement.Accepted (Statement.normalize sql) ∧
      ∃ r, Statement.toCanonical ⟨Statement.normalize sql, d, .userSupplied⟩ = .ok r ∧
        a = .ofConversion r := by
  rw [answerOfSql] at h
  split at h
  · exact absurd h (by simp)
  · next hacc =>
    split at h
    · exact absurd h (by simp)
    · next r hr => exact ⟨hacc, r, hr, (Except.ok.inj h).symm⟩

/-- Every answer to a statement of a user is ready to be run. -/
theorem ready_of_answerOfSql {sql : Text} {d : Dialect} {a : Answer}
    (h : answerOfSql sql d = .ok a) : Statement.Ready a.statement.text := by
  obtain ⟨hacc, r, hr, rfl⟩ := conversion_of_answerOfSql h
  exact Statement.ready_toCanonical (Statement.ready_normalize hacc) hr

theorem answerOfSql_of_ready {t : Text} (h : Statement.Ready t) :
    answerOfSql t .canonical = .ok (.ofConversion
      ⟨⟨t, .canonical, .userSupplied⟩, ⟨t, .canonical, .userSupplied⟩, [], []⟩) := by
  have hconv := Statement.toCanonical_of_ready (s := ⟨t, .canonical, .userSupplied⟩) rfl h
  rw [answerOfSql, h.normalize_eq_self]
  simp only [Statement.rejection?_eq_none_of_accepted h.accepted, hconv]

/-! ## Runs -/

/-- What a run may hand to an engine. -/
structure Run.Guarded {Row : Type} (run : Run (Executed Row)) : Prop where
  /-- The engine is called once at most. -/
  once : run.handed.length ≤ 1
  /-- With rows to show, it was given the statement of the answer. -/
  answered : ∀ x, run.result = .ok x → run.handed = [x.answer.statement.text]
  /-- It is not called for a statement that the gate refuses. -/
  rejected : ∀ r, run.result = .error (.rejected r) → run.handed = []
  /-- It is not called without a statement. -/
  noStatement : ∀ m r, run.result = .error (.noStatement m r) → run.handed = []
  executable : ∀ t ∈ run.handed, Statement.Executable t
  /-- What is handed over is handed over again, as it is, when a user sends it in. -/
  fixed : ∀ t ∈ run.handed, ∀ (Other : Type) (engine : Engine Other),
    (executeSql t .canonical engine).handed = [t]

/-- The statement of an answer is handed over as it is. -/
theorem Desk.handed_execute {Row : Type} (engine : Engine Row) (prompts : List Text)
    (a : Answer) : (execute engine ⟨prompts, [], .ok a⟩).handed = [a.statement.text] := rfl

/-- What is handed over for a statement of a user is its answer. -/
theorem answer_of_mem_handed {Row : Type} {engine : Engine Row} {sql t : Text} {d : Dialect}
    (h : t ∈ (executeSql sql d engine).handed) :
    ∃ a, answerOfSql sql d = .ok a ∧ t = a.statement.text := by
  rw [executeSql] at h
  cases ha : answerOfSql sql d with
  | error e =>
    rw [ha] at h
    exact absurd h List.not_mem_nil
  | ok a =>
    rw [ha] at h
    exact ⟨a, rfl, List.mem_singleton.1 h⟩

theorem answer_of_executeSql {Row : Type} {engine : Engine Row} {sql : Text} {d : Dialect}
    {x : Executed Row} (h : (executeSql sql d engine).result = .ok x) :
    answerOfSql sql d = .ok x.answer := by
  rw [executeSql] at h
  cases ha : answerOfSql sql d with
  | error e =>
    rw [ha] at h
    exact absurd h (by simp [Desk.execute])
  | ok a =>
    rw [ha, Desk.execute] at h
    simp only at h
    split at h
    · exact absurd h (by simp)
    · exact Except.ok.inj h ▸ rfl

theorem Statement.Ready.handed_executeSql {t : Text} (h : Statement.Ready t) {Row : Type}
    (engine : Engine Row) : (executeSql t .canonical engine).handed = [t] := by
  rw [executeSql, answerOfSql_of_ready h]
  exact Desk.handed_execute engine [] _

/-- A run that fails before the engine is called, or has an answer that is ready. -/
theorem guarded_execute {Row : Type} (engine : Engine Row) (prompts : List Text)
    {result : Except AnswerError Answer}
    (hready : ∀ a, result = .ok a → Statement.Ready a.statement.text) :
    (Desk.execute engine ⟨prompts, [], result⟩).Guarded := by
  cases result with
  | error e =>
    have hexec : Desk.execute engine ⟨prompts, [], .error e⟩ = ⟨prompts, [], .error e⟩ := rfl
    rw [hexec]
    exact ⟨by simp, fun x hx => absurd hx (by simp), fun _ _ => rfl, fun _ _ _ => rfl,
      by simp, by simp⟩
  | ok a =>
    have ha := hready a rfl
    have hhanded := Desk.handed_execute engine prompts a
    have hfailed : ∀ e, (Desk.execute engine ⟨prompts, [], .ok a⟩).result = .error e →
        ∃ x, e = .execution x := by
      intro e he
      rw [Desk.execute] at he
      cases hrows : engine a.statement.text with
      | error x =>
        simp only [hrows, Except.error.injEq] at he
        exact ⟨x, he.symm⟩
      | ok rows =>
        simp only [hrows] at he
        exact absurd he (by simp)
    refine ⟨by simp [hhanded], fun x hx => ?_, fun r hr => ?_, fun m r hr => ?_, ?_, ?_⟩
    · rw [Desk.execute] at hx
      cases hrows : engine a.statement.text with
      | error e =>
        simp only [hrows] at hx
        exact absurd hx (by simp)
      | ok rows =>
        simp only [hrows, Except.ok.injEq] at hx
        rw [hhanded, ← hx]
    · obtain ⟨x, hx⟩ := hfailed _ hr
      exact absurd hx (by simp)
    · obtain ⟨x, hx⟩ := hfailed _ hr
      exact absurd hx (by simp)
    · rw [hhanded]
      intro t ht
      exact List.mem_singleton.1 ht ▸ ha.executable
    · rw [hhanded]
      intro t ht Other other
      exact List.mem_singleton.1 ht ▸ ha.handed_executeSql other

/-- **What reaches the engine.** Whatever a desk is asked and whatever its model answers,
whatever statement a user sends in and in whichever dialect: the engine is called once at
most, not at all when the run is refused or has no statement, and it is given one accepted
single-spaced statement with a single semicolon at its end, which sent in again is handed
over unchanged. -/
theorem handed_guarded {Row : Type} (desk : Desk) (engine : Engine Row) :
    (∀ question, (desk.answerAndExecute question engine).Guarded) ∧
      ∀ sql dialect, (executeSql sql dialect engine).Guarded := by
  constructor
  · intro question
    rw [Desk.answerAndExecute, Desk.answer]
    exact guarded_execute engine _ fun _ ha => ready_of_answerWith ha
  · intro sql dialect
    rw [executeSql]
    exact guarded_execute engine _ fun _ ha => ready_of_answerOfSql ha

end SqlScribe
