import SqlScribe.Plan.Check

/-!
# Requests with a plan

When a request has a plan and a statement, and what the checks of its parts say. Main
statements:

* `Table.projectionFault?_eq_none_iff`: columns that can be shown;
* `literalFault?_eq_none_iff`, `Table.predicateFault?_eq_none`: literals and conditions that
  pass the check;
* `Table.hasColumn_of_predicateFault?`, `Table.safe_of_predicateFault?`: conditions that
  can be written;
* `Request.plan_eq_ok_iff`, `Request.build_eq_ok_iff`: requests with a plan.
-/

namespace SqlScribe

/-! ## Literals -/

/-- The literals of an operand. -/
def Operand.literals : Operand → List Literal
  | .single l => [l]
  | .range low high => [low, high]

/-- A literal without characters that could end it. -/
def Literal.Safe : Literal → Prop
  | .text t => ∀ c ∈ t, isUnsafe c = false
  | _ => True

/-- Whether a column of some kind takes a value like this. -/
def Literal.suits (kind : ColumnKind) : Literal → Bool
  | .integer _ => kind.isNumeric
  | .date _ => kind == .date || kind == .text
  | .text _ => !kind.isNumeric

/-- A literal passes the check when it is safe and suits the column. -/
theorem literalFault?_eq_none_iff {column : Text} {kind : ColumnKind} {l : Literal} :
    literalFault? column kind l = none ↔ l.Safe ∧ l.suits kind = true := by
  have hnone : ∀ (p : Prop) [Decidable p] (e : RequestError),
      (if p then none else some e) = none ↔ p := by
    intro p _ e
    split <;> simp [*]
  cases l with
  | integer n =>
    have hsafe : (Literal.integer n).Safe := trivial
    rw [literalFault?, hnone, Literal.suits, and_iff_right hsafe]
  | date d =>
    have hsafe : (Literal.date d).Safe := trivial
    rw [literalFault?, hnone, Literal.suits, and_iff_right hsafe, Bool.or_eq_true, beq_iff_eq,
      beq_iff_eq]
  | text t =>
    have hany : t.any isUnsafe = false ↔ ∀ c ∈ t, isUnsafe c = false := by
      simp [List.any_eq_false]
    rw [literalFault?, Literal.Safe, Literal.suits, ← hany]
    cases kind.isNumeric <;> cases t.any isUnsafe <;> simp

/-- With a safe literal only the type of the column can be wrong. -/
theorem mismatch_of_literalFault? {column : Text} {kind : ColumnKind} {l : Literal}
    {e : RequestError} (hl : l.Safe) (h : literalFault? column kind l = some e) :
    ∃ k, e = .typeMismatch column k := by
  cases l with
  | integer n =>
    rw [literalFault?] at h
    split at h
    · exact absurd h (by simp)
    · exact ⟨_, (Option.some.inj h).symm⟩
  | date d =>
    rw [literalFault?] at h
    split at h
    · exact absurd h (by simp)
    · exact ⟨_, (Option.some.inj h).symm⟩
  | text t =>
    rw [literalFault?] at h
    split at h
    · exact ⟨_, (Option.some.inj h).symm⟩
    · split at h
      · next hany =>
        obtain ⟨c, hc, hunsafe⟩ := List.any_eq_true.1 hany
        exact absurd hunsafe (by simp [hl c hc])
      · exact absurd h (by simp)

/-- A condition as it should be over a table, but for the type of its column: the column is
there, the literals are safe, and an interval is what `BETWEEN` is used with. -/
structure Predicate.Fits (p : Predicate) (t : Table) : Prop where
  column : t.hasColumn p.column = true
  safe : ∀ l ∈ p.operand.literals, l.Safe
  shape : p.operator = .between ↔ ∃ low high, p.operand = .range low high

/-! ## Columns and conditions -/

namespace Table

/-- Columns can be shown when all of them are there and none comes twice. -/
theorem projectionFault?_eq_none_iff {t : Table} {seen cs : List Text} :
    t.projectionFault? seen cs = none ↔
      (∀ c ∈ cs, t.hasColumn c = true ∧ c ∉ seen) ∧ cs.Nodup := by
  induction cs generalizing seen with
  | nil => simp [projectionFault?]
  | cons c cs ih =>
    rw [projectionFault?]
    split
    · next h =>
      rw [Bool.not_eq_true'] at h
      constructor
      · intro hsome
        exact absurd hsome (by simp)
      · intro hall
        exact absurd (hall.1 c List.mem_cons_self).1 (by simp [h])
    · next h =>
      rw [Bool.not_eq_true', Bool.not_eq_false] at h
      split
      · next hseen =>
        constructor
        · intro hsome
          exact absurd hsome (by simp)
        · intro hall
          exact absurd (by simpa using hseen) (hall.1 c List.mem_cons_self).2
      · next hseen =>
        have hfresh : c ∉ seen := by simpa using hseen
        rw [ih, List.nodup_cons]
        constructor
        · rintro ⟨hall, hnodup⟩
          refine ⟨fun x hx => ?_, fun hc => ?_, hnodup⟩
          · rcases List.mem_cons.1 hx with rfl | hx
            · exact ⟨h, hfresh⟩
            · exact ⟨(hall x hx).1, fun hm => (hall x hx).2 (List.mem_cons_of_mem _ hm)⟩
          · exact (hall c hc).2 List.mem_cons_self
        · rintro ⟨hall, hc, hnodup⟩
          refine ⟨fun x hx => ⟨(hall x (List.mem_cons_of_mem _ hx)).1, fun hm => ?_⟩, hnodup⟩
          rcases List.mem_cons.1 hm with rfl | hm
          · exact hc hx
          · exact (hall x (List.mem_cons_of_mem _ hx)).2 hm

theorem columnFault?_eq_none_iff {t : Table} {name : Text} :
    t.columnFault? name = none ↔ t.hasColumn name = true := by
  rw [columnFault?]
  split
  · next h => simp [h]
  · next h => simp [h]

/-- A condition that passes the check is on a column of the table. -/
theorem hasColumn_of_predicateFault? {t : Table} {p : Predicate}
    (h : t.predicateFault? p = none) : t.hasColumn p.column = true := by
  rw [predicateFault?] at h
  rw [hasColumn]
  cases hc : t.column? p.column with
  | none =>
    rw [hc] at h
    exact absurd h (by simp)
  | some c => rfl

/-- The literals of a condition that passes the check are safe. -/
theorem safe_of_predicateFault? {t : Table} {p : Predicate} (h : t.predicateFault? p = none) :
    ∀ l ∈ p.operand.literals, l.Safe := by
  obtain ⟨column, op, operand⟩ := p
  rw [predicateFault?] at h
  cases hc : t.column? column with
  | none =>
    simp only [hc] at h
    exact absurd h (by simp)
  | some c =>
    cases operand with
    | single l =>
      have hl : literalFault? column c.kind l = none := by
        cases op <;> simp [hc] at h <;> exact h
      intro x hx
      rw [List.mem_singleton.1 hx]
      exact (literalFault?_eq_none_iff.1 hl).1
    | range low high =>
      have hl : literalFault? column c.kind low = none ∧
          literalFault? column c.kind high = none := by
        cases op <;> simp [hc] at h
        exact h
      intro x hx
      rcases List.mem_cons.1 hx with rfl | hx
      · exact (literalFault?_eq_none_iff.1 hl.1).1
      · rw [List.mem_singleton.1 hx]
        exact (literalFault?_eq_none_iff.1 hl.2).1

/-- Only a literal can be wrong with a condition that fits. -/
theorem literalFault?_of_predicateFault? {t : Table} {p : Predicate} (hp : p.Fits t)
    {e : RequestError} (h : t.predicateFault? p = some e) :
    ∃ c, t.column? p.column = some c ∧
      ∃ l ∈ p.operand.literals, literalFault? p.column c.kind l = some e := by
  obtain ⟨column, op, operand⟩ := p
  obtain ⟨c, hc⟩ := Option.isSome_iff_exists.1 hp.column
  have hshape := hp.shape
  rw [predicateFault?] at h
  simp only at hc
  refine ⟨c, hc, ?_⟩
  cases operand with
  | single l =>
    have hop : op ≠ .between := fun hop => by simpa using hshape.1 hop
    have hl : literalFault? column c.kind l = some e := by
      cases op with
      | between => exact absurd rfl hop
      | _ => simpa [hc] using h
    exact ⟨l, List.mem_cons_self, hl⟩
  | range low high =>
    obtain rfl : op = .between := hshape.2 ⟨low, high, rfl⟩
    simp only [hc] at h
    rcases Option.or_eq_some_iff.1 h with h | ⟨-, h⟩
    · exact ⟨low, List.mem_cons_self, h⟩
    · exact ⟨high, List.mem_cons_of_mem _ List.mem_cons_self, h⟩

/-- Only the type of its column can be wrong with a condition that fits. -/
theorem mismatch_of_predicateFault? {t : Table} {p : Predicate} (hp : p.Fits t) {e : RequestError}
    (h : t.predicateFault? p = some e) : ∃ k, e = .typeMismatch p.column k := by
  obtain ⟨c, -, l, hl, hfault⟩ := literalFault?_of_predicateFault? hp h
  exact mismatch_of_literalFault? (hp.safe l hl) hfault

/-- A condition that fits passes the check if its literals suit the column. -/
theorem predicateFault?_eq_none {t : Table} {p : Predicate} (hp : p.Fits t)
    (h : ∀ c, t.column? p.column = some c → ∀ l ∈ p.operand.literals, l.suits c.kind = true) :
    t.predicateFault? p = none := by
  cases hfault : t.predicateFault? p with
  | none => rfl
  | some e =>
    obtain ⟨c, hc, l, hl, hliteral⟩ := literalFault?_of_predicateFault? hp hfault
    rw [literalFault?_eq_none_iff.2 ⟨hp.safe l hl, h c hc l hl⟩] at hliteral
    exact absurd hliteral (by simp)

/-- A figure can be computed over a numeric column of the table only. -/
theorem metric_of_metricFault? {t : Table} {m : Option Text} (h : t.metricFault? m = none) :
    ∃ name, m = some name ∧ t.hasColumn name = true := by
  cases m with
  | none => exact absurd h (by simp [metricFault?])
  | some name =>
    refine ⟨name, rfl, ?_⟩
    rw [metricFault?] at h
    rw [hasColumn]
    cases hc : t.column? name with
    | none =>
      rw [hc] at h
      exact absurd h (by simp)
    | some c => rfl

end Table

/-! ## Requests -/

theorem Schema.name_of_table? {s : Schema} {name : Text} {t : Table} (h : s.table? name = some t) :
    t.name = name := by
  have hfound := List.find?_some h
  simpa using hfound

namespace Request

/-- A request without a fault has conditions and other parts without one. -/
theorem fault?_eq_none_iff {r : Request} {intent : Intent} {t : Table} :
    r.fault? intent t = none ↔
      (∀ p ∈ r.conditions, t.predicateFault? p = none) ∧ r.intentFault? intent t = none := by
  rw [fault?, Option.or_eq_none_iff, List.findSome?_eq_none_iff]

/-- A request has a plan when its table is there and nothing is wrong with it. -/
theorem plan_eq_ok_iff {r : Request} {intent : Intent} {s : Schema} {p : Plan} :
    r.plan intent s = .ok p ↔
      ∃ t, s.table? r.table = some t ∧ r.fault? intent t = none ∧ p = r.planOver intent t := by
  rw [plan]
  cases s.table? r.table with
  | none => simp
  | some t =>
    cases hf : r.fault? intent t with
    | none => simp [hf, eq_comm]
    | some e => simp [hf]

/-- The statement of a request is its plan, written and brought to normal form. -/
theorem build_eq_ok_iff {r : Request} {intent : Intent} {s : Schema} {st : Statement} :
    r.build intent s = .ok st ↔ ∃ p, r.plan intent s = .ok p ∧
      st = ⟨Statement.normalize p.sql, .canonical, .ruleGenerated⟩ := by
  rw [build]
  cases r.plan intent s with
  | error e => simp [Except.map]
  | ok p => simp [Except.map, eq_comm]

end Request

end SqlScribe
