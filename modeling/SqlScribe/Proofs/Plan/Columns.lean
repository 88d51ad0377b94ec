import SqlScribe.Proofs.Plan.Check

/-!
# Columns that a request names

What becomes of the columns that a request names. An intent looks at some of them: these have to
be columns of the table, or the request is rejected. At the others it does not look at all, so the
request is planned as if it did not name them. Main statements:

* `Request.hasColumn_of_fault?`: a request without a fault names columns of the table where its
  intent looks;
* `Request.plan_seenBy`: a request is planned by what its intent looks at;
* `Request.unknown_columns`: which unknown columns are rejected and which are dropped.
-/

namespace SqlScribe

namespace Request

variable {r : Request} {intent : Intent} {s : Schema} {t : Table}

/-- The columns that are to be shown, compared, ordered by or grouped by. -/
def namedColumns (r : Request) : List Text :=
  r.columns ++ r.conditions.map Predicate.column ++ r.order.toList.map Order.column
    ++ r.groupBy.toList

/-- The request without the parts that an intent does not look at. -/
def seenBy (r : Request) : Intent → Request
  | .select => { r with groupBy := none, metric := none }
  | .count => { table := r.table, conditions := r.conditions }
  | .aggregate _ => { r with columns := [], order := none, limit := none }

/-! ## What is looked at -/

theorem fault?_seenBy (r : Request) (intent : Intent) (t : Table) :
    (r.seenBy intent).fault? intent t = r.fault? intent t := by
  cases intent <;> rfl

theorem planOver_seenBy (r : Request) (intent : Intent) (t : Table) :
    (r.seenBy intent).planOver intent t = r.planOver intent t := by
  cases intent <;> rfl

/-- A request is planned by what its intent looks at. -/
theorem plan_seenBy (r : Request) (intent : Intent) (s : Schema) :
    (r.seenBy intent).plan intent s = r.plan intent s := by
  have htable : (r.seenBy intent).table = r.table := by cases intent <;> rfl
  simp only [plan, htable, fault?_seenBy, planOver_seenBy]

theorem build_seenBy (r : Request) (intent : Intent) (s : Schema) :
    (r.seenBy intent).build intent s = r.build intent s := by
  rw [build, build, plan_seenBy]

/-- Where the intent looks, a request without a fault names columns of the table. -/
theorem hasColumn_of_fault? (h : r.fault? intent t = none) :
    ∀ c ∈ (r.seenBy intent).namedColumns, t.hasColumn c = true := by
  obtain ⟨hconditions, hparts⟩ := fault?_eq_none_iff.1 h
  have hcompared : ∀ c ∈ r.conditions.map Predicate.column, t.hasColumn c = true :=
    List.forall_mem_map.2 fun p hp => Table.hasColumn_of_predicateFault? (hconditions p hp)
  intro c hc
  cases intent with
  | select =>
    obtain ⟨hshown, horder⟩ := Option.or_eq_none_iff.1 hparts
    simp only [seenBy, namedColumns, Option.toList_none, List.append_nil, List.mem_append] at hc
    rcases hc with (hc | hc) | hc
    · exact ((Table.projectionFault?_eq_none_iff.1 hshown).1 c hc).1
    · exact hcompared c hc
    · obtain ⟨o, ho, rfl⟩ := List.mem_map.1 hc
      rw [Option.mem_toList] at ho
      rw [ho] at horder
      exact Table.columnFault?_eq_none_iff.1 horder
  | count =>
    simp only [seenBy, namedColumns, Option.toList_none, List.map_nil, List.append_nil,
      List.nil_append] at hc
    exact hcompared c hc
  | aggregate a =>
    obtain ⟨-, hgroup⟩ := Option.or_eq_none_iff.1 hparts
    simp only [seenBy, namedColumns, Option.toList_none, List.map_nil, List.append_nil,
      List.nil_append, List.mem_append] at hc
    rcases hc with hc | hc
    · exact hcompared c hc
    · rw [Option.mem_toList] at hc
      rw [hc] at hgroup
      exact Table.columnFault?_eq_none_iff.1 hgroup

/-! ## What the error says -/

theorem plan_eq_error_iff (ht : s.table? r.table = some t) {e : RequestError} :
    r.plan intent s = .error e ↔ r.fault? intent t = some e := by
  rw [plan, ht]
  cases hf : r.fault? intent t with
  | none => simp [hf]
  | some e' => simp [hf]

/-- A request with a fault has neither a plan nor a statement. -/
theorem rejected_of_fault? (ht : s.table? r.table = some t) {e : RequestError}
    (h : r.fault? intent t = some e) :
    r.plan intent s = .error e ∧ r.build intent s = .error e := by
  have hplan := (plan_eq_error_iff ht).2 h
  exact ⟨hplan, by rw [build, hplan]; rfl⟩

end Request

/-- An error for an unknown column is that of the table, for a column that it does not have. -/
def RequestError.Unknown (t : Table) (n : Text) (e : RequestError) : Prop :=
  e = t.unknownColumn n ∧ t.hasColumn n = false

/-- Whether the error is one for an unknown column. -/
def RequestError.isUnknownColumn : RequestError → Bool
  | unknownColumn .. => true
  | _ => false

theorem isUnknownColumn_literalFault? {column : Text} {kind : ColumnKind} {l : Literal}
    {e : RequestError} (h : literalFault? column kind l = some e) : e.isUnknownColumn = false := by
  unfold literalFault? at h
  repeat' split at h
  all_goals first
    | exact Option.some.inj h ▸ rfl
    | exact absurd h.symm (Option.some_ne_none e)

namespace Table

variable {t : Table} {e : RequestError}

theorem unknown_of_columnFault? {n : Text} (h : t.columnFault? n = some e) : e.Unknown t n := by
  rw [columnFault?] at h
  split at h
  · exact absurd h (by simp)
  · next hno => exact ⟨(Option.some.inj h).symm, by simpa using hno⟩

theorem unknown_of_column? {n : Text} (h : t.column? n = none) :
    (t.unknownColumn n).Unknown t n :=
  ⟨rfl, by rw [hasColumn, h]; rfl⟩

theorem unknown_of_projectionFault? {seen cs : List Text} (h : t.projectionFault? seen cs = some e)
    (hunknown : e.isUnknownColumn = true) : ∃ n ∈ cs, e.Unknown t n := by
  induction cs generalizing seen with
  | nil => exact absurd h (by simp [projectionFault?])
  | cons c cs ih =>
    rw [projectionFault?] at h
    split at h
    · next hno => exact ⟨c, List.mem_cons_self, (Option.some.inj h).symm, by simpa using hno⟩
    · split at h
      · exact absurd hunknown (Option.some.inj h ▸ Bool.false_ne_true)
      · obtain ⟨n, hn, hnamed⟩ := ih h
        exact ⟨n, List.mem_cons_of_mem c hn, hnamed⟩

theorem unknown_of_predicateFault? {p : Predicate} (h : t.predicateFault? p = some e)
    (hunknown : e.isUnknownColumn = true) : e.Unknown t p.column := by
  have hliteral : ∀ {kind l}, literalFault? p.column kind l ≠ some e := fun hl =>
    Bool.false_ne_true ((isUnknownColumn_literalFault? hl).symm.trans hunknown)
  rw [predicateFault?] at h
  cases hc : t.column? p.column with
  | none =>
    rw [hc] at h
    exact Option.some.inj h ▸ unknown_of_column? hc
  | some c =>
    simp only [hc] at h
    split at h
    · exact ((Option.or_eq_some_iff.1 h).elim hliteral fun h => hliteral h.2).elim
    · exact absurd hunknown (Option.some.inj h ▸ Bool.false_ne_true)
    · exact absurd hunknown (Option.some.inj h ▸ Bool.false_ne_true)
    · exact absurd h hliteral

theorem unknown_of_metricFault? {m : Option Text} (h : t.metricFault? m = some e)
    (hunknown : e.isUnknownColumn = true) : ∃ n, m = some n ∧ e.Unknown t n := by
  cases m with
  | none => exact absurd hunknown (Option.some.inj h ▸ Bool.false_ne_true)
  | some n =>
    refine ⟨n, rfl, ?_⟩
    rw [metricFault?] at h
    cases hc : t.column? n with
    | none =>
      rw [hc] at h
      exact Option.some.inj h ▸ unknown_of_column? hc
    | some c =>
      simp only [hc] at h
      split at h
      · exact absurd h (by simp)
      · exact absurd hunknown (Option.some.inj h ▸ Bool.false_ne_true)

end Table

namespace Request

variable {r : Request} {intent : Intent} {s : Schema} {t : Table}

/-- An error for an unknown column is for one that the intent looks at. -/
theorem unknown_of_fault? {e : RequestError} (h : r.fault? intent t = some e)
    (hunknown : e.isUnknownColumn = true) :
    ∃ n, (n ∈ (r.seenBy intent).namedColumns ∨ (r.seenBy intent).metric = some n) ∧
      e.Unknown t n := by
  have hcompared : ∀ p ∈ r.conditions, p.column ∈ (r.seenBy intent).namedColumns := by
    intro p hp
    have hmem := List.mem_map_of_mem (f := Predicate.column) hp
    cases intent <;> simp [seenBy, namedColumns, hmem]
  rcases Option.or_eq_some_iff.1 h with h | ⟨-, h⟩
  · obtain ⟨p, hp, hfault⟩ := List.exists_of_findSome?_eq_some h
    exact ⟨p.column, Or.inl (hcompared p hp), Table.unknown_of_predicateFault? hfault hunknown⟩
  · cases intent with
    | select =>
      rcases Option.or_eq_some_iff.1 h with h | ⟨-, h⟩
      · obtain ⟨n, hn, hnamed⟩ := Table.unknown_of_projectionFault? h hunknown
        exact ⟨n, Or.inl (by simp [seenBy, namedColumns, hn]), hnamed⟩
      · obtain ⟨o, ho, hfault⟩ := Option.bind_eq_some_iff.1 h
        exact ⟨o.column, Or.inl (by simp [seenBy, namedColumns, ho]),
          Table.unknown_of_columnFault? hfault⟩
    | count => exact absurd h (by simp [intentFault?])
    | aggregate a =>
      rcases Option.or_eq_some_iff.1 h with h | ⟨-, h⟩
      · obtain ⟨n, hn, hnamed⟩ := Table.unknown_of_metricFault? h hunknown
        exact ⟨n, Or.inr hn, hnamed⟩
      · obtain ⟨n, hn, hfault⟩ := Option.bind_eq_some_iff.1 h
        exact ⟨n, Or.inl (by simp [seenBy, namedColumns, hn]), Table.unknown_of_columnFault? hfault⟩

/-- **Unknown columns.** A request that names an unknown column where its intent looks is rejected,
an error for an unknown column tells one of these, and where the intent does not look the request is
planned and written as if it named nothing. -/
theorem unknown_columns (ht : s.table? r.table = some t) :
    (∀ c ∈ (r.seenBy intent).namedColumns, t.hasColumn c = false →
      ∃ e, r.plan intent s = .error e ∧ r.build intent s = .error e) ∧
    (∀ e : RequestError, r.plan intent s = .error e → e.isUnknownColumn = true →
      ∃ n, (n ∈ (r.seenBy intent).namedColumns ∨ (r.seenBy intent).metric = some n) ∧
        e.Unknown t n) ∧
    r.plan intent s = (r.seenBy intent).plan intent s ∧
    r.build intent s = (r.seenBy intent).build intent s := by
  refine ⟨fun c hc hmissing => ?_, fun e he hunknown => ?_, (plan_seenBy r intent s).symm,
    (build_seenBy r intent s).symm⟩
  · cases hf : r.fault? intent t with
    | none => exact absurd (hasColumn_of_fault? hf c hc) (by simp [hmissing])
    | some e => exact ⟨e, rejected_of_fault? ht hf⟩
  · exact unknown_of_fault? ((plan_eq_error_iff ht).1 he) hunknown

private theorem hasColumn_bonus (ht : Schema.humanResources.table? "employees" = some t) :
    t.hasColumn "bonus" = false := by
  have hany : (Schema.humanResources.table? "employees").any
      (fun t => t.hasColumn "bonus") = false := by decide
  rwa [ht] at hany

/-- Employees shown by a column that they do not have are not selected, but they are counted. -/
theorem unknown_columns_bonus : ∃ t, Schema.humanResources.table? "employees" = some t ∧
    t.hasColumn "bonus" = false ∧
    (∃ e, plan { table := "employees", columns := ["bonus"] } .select Schema.humanResources =
      .error e) ∧
    plan { table := "employees", columns := ["bonus"] } .count Schema.humanResources =
      plan { table := "employees" } .count Schema.humanResources := by
  obtain ⟨t, ht⟩ : ∃ t, Schema.humanResources.table? "employees" = some t :=
    Option.isSome_iff_exists.1 (by decide)
  have hmissing : t.hasColumn "bonus" = false := hasColumn_bonus ht
  have hselect := @unknown_columns { table := "employees", columns := ["bonus"] } .select _ t ht
  have hcount := @unknown_columns { table := "employees", columns := ["bonus"] } .count _ t ht
  obtain ⟨e, he, -⟩ := hselect.1 "bonus" (by decide) hmissing
  exact ⟨t, ht, hmissing, ⟨e, he⟩, hcount.2.2.1⟩

/-- Not every unknown column is rejected: a count does not look at the columns to be shown. -/
theorem not_rejects_unknown : ¬ ∀ (s : Schema) (r : Request) (intent : Intent) (t : Table),
    s.table? r.table = some t → (∃ c ∈ r.namedColumns, t.hasColumn c = false) →
      ∃ e, r.plan intent s = .error e := by
  intro h
  obtain ⟨t, ht⟩ : ∃ t, Schema.humanResources.table? "employees" = some t :=
    Option.isSome_iff_exists.1 (by decide)
  have hmissing : t.hasColumn "bonus" = false := hasColumn_bonus ht
  obtain ⟨e, he⟩ := h Schema.humanResources { table := "employees", columns := ["bonus"] }
    .count t ht ⟨"bonus", by decide, hmissing⟩
  have hplan : plan { table := "employees", columns := ["bonus"] } .count Schema.humanResources =
      .ok (.aggregate (.scan "employees") none .count) := rfl
  exact absurd (he.symm.trans hplan) (by simp)

end Request

end SqlScribe
