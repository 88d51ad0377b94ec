import SqlScribe.Proofs.Question.Reading

/-!
# Schemas that suit the lexicon

Where the columns the lexicon speaks of have the types they are used with, every question
is read as a request that has a plan. Main statements:

* `Table.suited_of_suitsLexicon`: the check of a table is sound;
* `Condition.passes`: no condition is at fault;
* `readQuestion_planned`: every reading has a plan.
-/

namespace SqlScribe

/-! ## Columns of the types they are used with -/

/-- Whether the columns of a table that the lexicon speaks of have the types they are used
with: names of persons and departments are no numbers, the column of money is there and
holds numbers, and a day can be compared with the day of hiring. -/
def Table.suitsLexicon (t : Table) : Bool :=
  (t.column? "name").all (fun c => !c.kind.isNumeric)
    && ((departmentColumn? t.name).bind t.column?).all (fun c => !c.kind.isNumeric)
    && ((metricColumn? t.name).bind t.column?).any (fun c => c.kind.isNumeric)
    && (t.column? "hire_date").all fun c => c.kind == .date || c.kind == .text

/-- Whether a schema suits the lexicon: it can list the employees, and the tables that a
question can be about suit it as far as they are there. -/
def Schema.suitsLexicon (s : Schema) : Bool :=
  (s.hasColumn "employees" "name" && s.hasColumn "employees" "department"
    && s.hasColumn "employees" "salary")
    && Question.tableNames.all fun name => (s.table? name).all Table.suitsLexicon

/-- The columns of a table that the lexicon speaks of have the types they are used with. -/
structure Table.Suited (t : Table) : Prop where
  name : ∀ c, t.column? "name" = some c → c.kind.isNumeric = false
  department : ∀ column c, departmentColumn? t.name = some column → t.column? column = some c →
    c.kind.isNumeric = false
  metric : ∃ column c, metricColumn? t.name = some column ∧ t.column? column = some c ∧
    c.kind.isNumeric = true
  hired : ∀ c, t.column? "hire_date" = some c → c.kind = .date ∨ c.kind = .text

/-- A table that passes the check suits the lexicon. -/
theorem Table.suited_of_suitsLexicon {t : Table} (h : t.suitsLexicon = true) : t.Suited := by
  simp only [suitsLexicon, Bool.and_eq_true, Option.all_eq_true, Option.any_eq_true,
    Bool.not_eq_true', Option.bind_eq_some_iff, Bool.or_eq_true, beq_iff_eq] at h
  obtain ⟨⟨⟨hname, hdepartment⟩, c, ⟨column, hmap, hc⟩, hnumeric⟩, hhired⟩ := h
  exact ⟨hname, fun column c hmap hc => hdepartment c ⟨column, hmap, hc⟩,
    ⟨column, c, hmap, hc, hnumeric⟩, hhired⟩

namespace Table.Suited

variable {t : Table} (ht : t.Suited)

include ht

theorem hasColumn_metric {column : Text} (hmap : metricColumn? t.name = some column) :
    t.hasColumn column = true := by
  obtain ⟨column', c, hmap', hc, -⟩ := ht.metric
  obtain rfl := Option.some.inj (hmap.symm.trans hmap')
  exact Option.isSome_iff_exists.2 ⟨c, hc⟩

theorem isNumeric_metric {column : Text} (hmap : metricColumn? t.name = some column) {c : Column}
    (hc : t.column? column = some c) : c.kind.isNumeric = true := by
  obtain ⟨column', c', hmap', hc', hnumeric⟩ := ht.metric
  obtain rfl := Option.some.inj (hmap.symm.trans hmap')
  exact Option.some.inj (hc.symm.trans hc') ▸ hnumeric

end Table.Suited

/-! ## Conditions -/

/-- Over a suited table the conditions of a question pass the check. -/
theorem Condition.passes {t : Table} {p : Predicate} (h : Condition t p) (ht : t.Suited) :
    t.predicateFault? p = none := by
  refine Table.predicateFault?_eq_none h.fits fun c hc l hl => ?_
  cases h with
  | name hn hcolumn =>
    rw [List.mem_singleton.1 hl, Literal.suits, ht.name c hc]
    rfl
  | department hr hmap hcolumn =>
    rw [List.mem_singleton.1 hl, Literal.suits, ht.department _ c hmap hc]
    rfl
  | interval hmap hcolumn hlow hhigh =>
    have hnumeric := ht.isNumeric_metric hmap hc
    rcases List.mem_pair.1 hl with rfl | rfl <;> exact hnumeric
  | amount hmap hcolumn hr hv =>
    rw [List.mem_singleton.1 hl]
    exact ht.isNumeric_metric hmap hc
  | hired hy hcolumn =>
    have hkind : (c.kind == .date || c.kind == .text) = true := by
      simpa using ht.hired c hc
    rcases List.mem_pair.1 hl with rfl | rfl <;> exact hkind

/-! ## Readings -/

namespace Question

variable {q : Question} {t : Table} {intent : Intent}

/-- Over a suited table a figure can be computed. -/
theorem metricFault?_requestFor (ht : t.Suited) (a : Aggregate) :
    t.metricFault? (q.requestFor t t.name (.aggregate a)).metric = none := by
  obtain ⟨column, c, hmap, hc, hnumeric⟩ := ht.metric
  have hmetric : (q.requestFor t t.name (.aggregate a)).metric = some column := by
    rw [requestFor]
    simp only [Intent.isAggregate, if_true, hmap, Option.filter_some, ht.hasColumn_metric hmap]
  rw [hmetric, Table.metricFault?, hc]
  exact if_pos hnumeric

/-- Over a suited table nothing is wrong with the request for an answer. -/
theorem fault?_requestFor (ht : t.Suited) :
    (q.requestFor t t.name intent).fault? intent t = none := by
  rw [Request.fault?_eq_none_iff]
  refine ⟨fun p hp => (condition_of_mem hp).passes ht, ?_⟩
  cases intent with
  | select =>
    obtain ⟨hcolumns, horder⟩ := rows_ok q t t.name
    rw [Request.intentFault?, hcolumns, Option.none_or, Option.bind_eq_none_iff]
    exact horder
  | count => rfl
  | aggregate a =>
    rw [Request.intentFault?, metricFault?_requestFor ht, Option.none_or, Option.bind_eq_none_iff]
    exact fun g hg => Table.columnFault?_eq_none_iff.2 (groupBy_requestFor hg).2

end Question

/-- **Planning.** Where the schema suits the lexicon, every text is read as a request that has
a plan. -/
theorem readQuestion_planned {s : Schema} (hs : s.suitsLexicon = true) (text : Text) :
    ∃ p, (readQuestion text s).request.plan (readQuestion text s).intent s = .ok p := by
  simp only [Schema.suitsLexicon, Bool.and_eq_true, List.all_eq_true, Option.all_eq_true] at hs
  obtain ⟨⟨⟨hname, hdepartment⟩, hsalary⟩, htables⟩ := hs
  rw [readQuestion]
  rcases (Question.ofText text).read_eq s with ⟨ds, hread⟩ | ⟨name, t, hmem, ht, hread⟩
  · rw [hread]
    exact Request.plan_fallback hname hdepartment hsalary
  · rw [hread]
    have hsuited := Table.suited_of_suitsLexicon (htables name hmem t ht)
    obtain rfl := Schema.name_of_table? ht
    exact ⟨_, Request.plan_eq_ok_iff.2 ⟨t, ht, Question.fault?_requestFor hsuited, rfl⟩⟩

end SqlScribe
