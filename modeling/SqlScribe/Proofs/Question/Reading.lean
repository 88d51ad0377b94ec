import SqlScribe.Proofs.Question.Conditions

/-!
# What a question is read as

The request a question is read as has a plan, or something is wrong with the type of a
column or with what a figure is computed over. Main statements:

* `Question.typeError_of_fault?`: what can be wrong with the request for an answer;
* `Request.plan_fallback`: the general listing has a plan;
* `readQuestion_sound`: what is true of every reading.
-/

namespace SqlScribe

/-- The faults that the types of a schema can cause, and its lack of a figure. -/
def RequestError.OfTypes : RequestError → Prop
  | .typeMismatch _ _ => True
  | .missingMetric _ => True
  | _ => False

/-- What is true of every reading against a schema. -/
structure Reading.Sound (r : Reading) (s : Schema) : Prop where
  /-- The request has a plan, or a fault of types. -/
  planned : ∀ e, r.request.plan r.intent s = .error e → e.OfTypes
  /-- No column is compared twice. -/
  conditions : (r.request.conditions.map Predicate.column).Nodup
  /-- Only rows have an order and a limit. -/
  rows : r.intent ≠ .select → r.request.order = none ∧ r.request.limit = none
  /-- Only a figure has a grouping and a column to compute it over. -/
  figure : r.intent.isAggregate = false → r.request.groupBy = none ∧ r.request.metric = none
  /-- A question that is not understood is answered with the general listing. -/
  unresolved : .entityUnresolved ∈ r.degradations → r.intent = .select ∧ r.request = .fallback

/-! ## Columns to show -/

namespace Question

/-- Columns that are added where they are not there yet. -/
theorem foldl_addNew (added init : List Text) (hinit : init.Nodup) :
    (added.foldl (fun cs c => if cs.contains c then cs else cs ++ [c]) init).Nodup ∧
      ∀ x ∈ added.foldl (fun cs c => if cs.contains c then cs else cs ++ [c]) init,
        x ∈ init ∨ x ∈ added := by
  induction added generalizing init with
  | nil => exact ⟨hinit, fun x hx => Or.inl hx⟩
  | cons c added ih =>
    rw [List.foldl_cons]
    by_cases hc : init.contains c = true
    · rw [if_pos hc]
      obtain ⟨hnodup, hmem⟩ := ih init hinit
      exact ⟨hnodup, fun x hx => (hmem x hx).imp_right (List.mem_cons_of_mem c)⟩
    · rw [if_neg hc]
      have hfresh : c ∉ init := by simpa using hc
      have hinit' : (init ++ [c]).Nodup := by
        rw [List.nodup_append]
        refine ⟨hinit, by simp, ?_⟩
        rintro x hx y hy rfl
        exact hfresh (List.mem_singleton.1 hy ▸ hx)
      obtain ⟨hnodup, hmem⟩ := ih (init ++ [c]) hinit'
      refine ⟨hnodup, fun x hx => ?_⟩
      rcases hmem x hx with hx | hx
      · rcases List.mem_append.1 hx with hx | hx
        · exact Or.inl hx
        · exact Or.inr (List.mem_singleton.1 hx ▸ List.mem_cons_self)
      · exact Or.inr (List.mem_cons_of_mem c hx)

theorem nodup_defaultProjection (table : Text) : (defaultProjection table).Nodup := by
  rw [defaultProjection]
  split
  · decide
  · split
    · decide
    · split <;> decide

theorem hasColumn_of_mentionedColumns {q : Question} {t : Table} {c : Text}
    (h : c ∈ q.mentionedColumns t) : t.hasColumn c = true := by
  obtain ⟨r, hr, rfl⟩ := List.mem_map.1 h
  have hrule := (List.mem_filter.1 hr).2
  rw [Bool.and_eq_true] at hrule
  exact hrule.1

/-- The columns to show are all there, and none comes twice. -/
theorem projection_ok (q : Question) (t : Table) :
    (∀ c ∈ projection t (q.mentionedColumns t), t.hasColumn c = true) ∧
      (projection t (q.mentionedColumns t)).Nodup := by
  have hinit := (nodup_defaultProjection t.name).filter t.hasColumn
  obtain ⟨hnodup, hmem⟩ := foldl_addNew (q.mentionedColumns t) _ hinit
  refine ⟨fun c hc => ?_, hnodup⟩
  rcases hmem c hc with hc | hc
  · exact (List.mem_filter.1 hc).2
  · exact hasColumn_of_mentionedColumns hc

theorem hasColumn_of_order? {q : Question} {t : Table} {o : Order} (h : q.order? t = some o) :
    t.hasColumn o.column = true := by
  rw [order?] at h
  split at h
  · exact absurd h (by simp)
  · next r _ =>
    simp only at h
    split at h
    · exact absurd h (by simp)
    · split at h
      · next hcolumn =>
        obtain rfl := Option.some.inj h
        exact hcolumn
      · exact absurd h (by simp)

/-! ## The request for an answer -/

section Request

variable {q : Question} {t : Table} {name : Text} {intent : Intent}

/-- Nothing is wrong with the columns and the order of a request for rows. -/
theorem rows_ok (q : Question) (t : Table) (name : Text) :
    t.projectionFault? [] (q.requestFor t name .select).columns = none ∧
    ∀ o, (q.requestFor t name .select).order = some o → t.columnFault? o.column = none := by
  obtain ⟨hall, hnodup⟩ := projection_ok q t
  refine ⟨?_, fun o ho => ?_⟩
  · rw [Table.projectionFault?_eq_none_iff]
    exact ⟨fun c hc => ⟨hall c hc, List.not_mem_nil⟩, hnodup⟩
  · exact Table.columnFault?_eq_none_iff.2 (hasColumn_of_order? ho)

/-- Only the type of its column or the lack of one can be wrong with a figure. -/
theorem ofTypes_of_metricFault? {m : Option Text}
    (hm : ∀ c, m = some c → t.hasColumn c = true) {e : RequestError}
    (h : t.metricFault? m = some e) : e.OfTypes := by
  cases m with
  | none =>
    obtain rfl := Option.some.inj h
    trivial
  | some c =>
    obtain ⟨column, hcolumn⟩ := Option.isSome_iff_exists.1 (hm c rfl)
    rw [Table.metricFault?, hcolumn] at h
    simp only at h
    split at h
    · exact absurd h (by simp)
    · obtain rfl := Option.some.inj h
      trivial

/-- A figure is broken down by department or not at all. -/
theorem groupBy_requestFor {a : Aggregate} {g : Text}
    (h : (q.requestFor t name (.aggregate a)).groupBy = some g) :
    g = "department".toList ∧ t.hasColumn g = true := by
  rw [requestFor] at h
  simp only at h
  split at h
  · next hif =>
    obtain rfl := Option.some.inj h
    rw [Bool.and_eq_true] at hif
    exact ⟨rfl, hif.2⟩
  · exact absurd h (by simp)

theorem hasColumn_of_metric {a : Aggregate} {m : Text}
    (h : (q.requestFor t name (.aggregate a)).metric = some m) : t.hasColumn m = true := by
  rw [requestFor] at h
  simp only [Intent.isAggregate, if_true] at h
  exact (filter_hasColumn h).2

theorem rows_requestFor (h : intent.isSelect = false) :
    (q.requestFor t name intent).order = none ∧ (q.requestFor t name intent).limit = none := by
  rw [requestFor]
  simp only [h, Bool.false_eq_true, if_false, and_self]

theorem figure_requestFor (h : intent.isAggregate = false) :
    (q.requestFor t name intent).groupBy = none ∧ (q.requestFor t name intent).metric = none := by
  rw [requestFor]
  simp only [h, Bool.false_and, Bool.false_eq_true, if_false, and_self]

/-- What is wrong with the request for an answer is the type of a column, or that there is
nothing to compute a figure over. -/
theorem typeError_of_fault? {e : RequestError}
    (h : (q.requestFor t name intent).fault? intent t = some e) : e.OfTypes := by
  rw [Request.fault?] at h
  rcases Option.or_eq_some_iff.1 h with h | ⟨-, h⟩
  · obtain ⟨p, hp, hfault⟩ := List.exists_of_findSome?_eq_some h
    obtain ⟨k, rfl⟩ := Table.mismatch_of_predicateFault? (condition_of_mem hp).fits hfault
    trivial
  · cases intent with
    | select =>
      obtain ⟨hcolumns, horder⟩ := rows_ok q t name
      rw [Request.intentFault?, hcolumns, Option.none_or] at h
      obtain ⟨o, ho, hfault⟩ := Option.bind_eq_some_iff.1 h
      rw [horder o ho] at hfault
      exact absurd hfault (by simp)
    | count => exact absurd h (by simp [Request.intentFault?])
    | aggregate a =>
      rw [Request.intentFault?] at h
      rcases Option.or_eq_some_iff.1 h with h | ⟨-, h⟩
      · exact ofTypes_of_metricFault? (fun c hc => hasColumn_of_metric hc) h
      · obtain ⟨g, hg, hfault⟩ := Option.bind_eq_some_iff.1 h
        rw [Table.columnFault?_eq_none_iff.2 (groupBy_requestFor hg).2] at hfault
        exact absurd hfault (by simp)

end Request

/-! ## The whole reading -/

/-- The tables a question can be about. -/
def tableNames : List Text := tableRules.map TableRule.table ++ [defaultTable]

theorem not_mem_amountDegradations (q : Question) :
    Degradation.entityUnresolved ∉ q.amountDegradations := by
  rw [amountDegradations]
  split <;> simp

/-- A question is read as the general listing, or as a request over a table of the schema. -/
theorem read_eq (q : Question) (s : Schema) :
    (∃ ds, q.read s = ⟨.select, .fallback, ds⟩) ∨
      ∃ name t, name ∈ tableNames ∧ s.table? name = some t ∧
        q.read s = ⟨q.intent, q.requestFor t name q.intent, q.amountDegradations⟩ := by
  have hname : (q.tableRule?.map TableRule.table).getD defaultTable ∈ tableNames := by
    cases hrule : q.tableRule? with
    | none => exact List.mem_append_right _ List.mem_cons_self
    | some r =>
      exact List.mem_append_left _ (List.mem_map_of_mem (List.mem_of_find?_eq_some hrule))
  rw [read]
  cases ht : s.table? ((q.tableRule?.map TableRule.table).getD defaultTable) with
  | none => exact Or.inl ⟨_, rfl⟩
  | some t =>
    simp only
    split
    · next hif =>
      rw [Bool.and_eq_true] at hif
      have hintent : q.intent = .select := by
        cases hq : q.intent with
        | select => rfl
        | count =>
          rw [hq] at hif
          exact absurd hif.1 (by decide)
        | aggregate a =>
          rw [hq] at hif
          exact absurd hif.1 Bool.false_ne_true
      rw [hintent]
      exact Or.inl ⟨_, rfl⟩
    · exact Or.inr ⟨_, t, hname, ht, rfl⟩

end Question

/-- The general listing has a plan where the employees have a name, a department and a
salary. -/
theorem Request.plan_fallback {s : Schema} (hname : s.hasColumn "employees" "name" = true)
    (hdepartment : s.hasColumn "employees" "department" = true)
    (hsalary : s.hasColumn "employees" "salary" = true) :
    ∃ p, Request.fallback.plan .select s = .ok p := by
  rw [Schema.hasColumn, Option.any_eq_true] at hname hdepartment hsalary
  obtain ⟨t, ht, hname⟩ := hname
  obtain ⟨t', ht', hdepartment⟩ := hdepartment
  obtain ⟨t'', ht'', hsalary⟩ := hsalary
  obtain rfl : t = t' := Option.some.inj (ht.symm.trans ht')
  obtain rfl : t = t'' := Option.some.inj (ht.symm.trans ht'')
  have hcolumns : t.projectionFault? [] Request.fallback.columns = none := by
    rw [Table.projectionFault?_eq_none_iff]
    refine ⟨fun c hc => ⟨?_, List.not_mem_nil⟩, by decide⟩
    have hmem : c ∈ (["name", "department", "salary"] : List Text) := hc
    simp only [List.mem_cons, List.not_mem_nil, or_false] at hmem
    rcases hmem with rfl | rfl | rfl
    · exact hname
    · exact hdepartment
    · exact hsalary
  have hfault : Request.fallback.fault? .select t = none := by
    rw [fault?_eq_none_iff, intentFault?, hcolumns]
    exact ⟨fun p hp => absurd hp List.not_mem_nil, rfl⟩
  exact ⟨_, plan_eq_ok_iff.2 ⟨t, ht, hfault, rfl⟩⟩

/-- **What every reading is like.** Where the employees have a name, a department and a
salary, any text is read as a request that can be planned but for the types of its columns
and the lack of a figure: tables and columns are there, nothing is shown or compared twice,
operators go with their operands, and no literal is unsafe. A text that is not understood is
answered with the general listing. -/
theorem readQuestion_sound {s : Schema} (hname : s.hasColumn "employees" "name" = true)
    (hdepartment : s.hasColumn "employees" "department" = true)
    (hsalary : s.hasColumn "employees" "salary" = true) (text : Text) :
    (readQuestion text s).Sound s := by
  rw [readQuestion]
  rcases (Question.ofText text).read_eq s with ⟨ds, hread⟩ | ⟨name, t, -, ht, hread⟩
  · rw [hread]
    obtain ⟨p, hp⟩ := Request.plan_fallback hname hdepartment hsalary
    refine ⟨fun e he => ?_, List.nodup_nil, fun h => absurd rfl h, fun _ => ⟨rfl, rfl⟩,
      fun _ => ⟨rfl, rfl⟩⟩
    exact absurd (hp.symm.trans he) (by simp)
  · rw [hread]
    refine ⟨fun e he => ?_, Question.nodup_conditions _ t, fun h => ?_,
      fun h => Question.figure_requestFor h,
      fun h => absurd h (Question.not_mem_amountDegradations _)⟩
    · have htable : s.table? ((Question.ofText text).requestFor t name
          (Question.ofText text).intent).table = some t := ht
      simp only [Request.plan, htable] at he
      split at he
      · next e' hfault =>
        obtain rfl := Except.error.inj he
        exact Question.typeError_of_fault? hfault
      · exact absurd he (by simp)
    · refine Question.rows_requestFor ?_
      cases hi : (Question.ofText text).intent with
      | select => exact absurd hi h
      | _ => rfl

/-- A schema that keeps salaries as text. -/
def Schema.textSalaries : Schema := .ofTables [
  .ofColumns "employees" "salaries in words" [
    .required "name" "TEXT", .required "department" "TEXT", .required "salary" "TEXT"]]

theorem readQuestion_sound_textSalaries :
    (Schema.textSalaries.hasColumn "employees" "name" = true ∧
      Schema.textSalaries.hasColumn "employees" "department" = true ∧
      Schema.textSalaries.hasColumn "employees" "salary" = true) ∧
    (readQuestion "급여 5천만원 이상" .textSalaries).Sound .textSalaries :=
  ⟨by decide, readQuestion_sound (by decide) (by decide) (by decide) _⟩

end SqlScribe
