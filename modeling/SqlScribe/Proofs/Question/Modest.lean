import Mathlib.Data.List.Perm.Subperm
import SqlScribe.Proofs.Plan.Tame
import SqlScribe.Proofs.Question.Reading

/-!
# The size of what a question asks for

However long a question is, the statement that answers it is made of few and short parts.
Main statements:

* `tame_of_hangul`: names of persons and departments;
* `Condition.tame_sql`: conditions;
* `Question.spoken_requestFor`, `Request.spoken_fallback`: the parts of a whole request;
* `SelectParts.Spoken.modest`: they are few and short.
-/

namespace SqlScribe

open Statement (Tame)

/-! ## Names -/

theorem hangul_span {c : Char} (h : CharClass.hangul.has c = true) :
    0xAC00 ≤ c.toNat ∧ c.toNat ≤ 0xD7A3 := by
  simp only [CharClass.hangul, CharClass.has, Bool.and_eq_true, decide_eq_true_eq] at h
  exact ⟨UInt32.le_iff_toNat_le.1 h.1, UInt32.le_iff_toNat_le.1 h.2⟩

/-- The runs of the case maps leave the Hangul syllables alone. -/
theorem lowerOf_of_hangul {c : Char} (h : CharClass.hangul.has c = true) : lowerOf c = [c] := by
  obtain ⟨hfirst, hlast⟩ := hangul_span h
  have hapart : (lowerRuns.all fun r => Nat.blt r.last 0xAC00 || Nat.blt 0xD7A3 r.first)
      = true := by
    decide +kernel
  have hnone : CaseRun.image? lowerRuns c.toNat = none := by
    rw [CaseRun.image?, Option.map_eq_none_iff, List.find?_eq_none]
    intro r hr hin
    have hout := List.all_eq_true.1 hapart r hr
    simp only [Bool.and_eq_true, decide_eq_true_eq] at hin
    simp only [Bool.or_eq_true, Nat.blt_eq] at hout
    omega
  have hdotted : (c == 'İ') = false := by
    refine beq_eq_false_iff_ne.2 ?_
    rintro rfl
    exact absurd h (by decide)
  rw [lowerOf, if_neg (by omega), hdotted, hnone]
  rfl

/-- Names of persons and departments are tame. -/
theorem tame_of_hangul {n : Text} (h : IsPersonName n) : Tame 16 n := by
  have hbeyond : ∀ c ∈ n, 0x80 ≤ c.toNat := by
    intro c hc
    have hfirst := (hangul_span (h.2 c hc)).1
    omega
  refine ⟨fun c hc => ⟨?_, ?_⟩, fun hc => absurd (h.2 _ hc) (by decide),
    Statement.harmless_of_breaks fun c hc => Statement.isBreak_of_not_ascii (hbeyond c hc), ?_⟩
  · rintro rfl
    exact absurd (h.2 _ hc) (by decide)
  · rw [lowerOf_of_hangul (h.2 c hc), toLower_of_not_ascii (hbeyond c hc)]
  · have hlength := h.1
    have hsize := Text.utf8Size_le_length_mul n
    omega

theorem isPersonName_department {r : DepartmentRule} (hr : r ∈ departmentRules) :
    IsPersonName r.department := by
  have hall : (departmentRules.all fun r => Nat.ble r.department.length 4
      && r.department.all CharClass.hangul.has) = true := by decide
  have hrule := List.all_eq_true.1 hall r hr
  rw [Bool.and_eq_true, Nat.ble_eq, List.all_eq_true] at hrule
  exact hrule

/-! ## Columns -/

/-- The columns that the lexicon speaks of. -/
def lexiconColumns : List Text :=
  ["name", "department", "salary", "hire_date", "budget", "start_date", "end_date"]

theorem tame_of_mem_lexiconColumns {column : Text} (h : column ∈ lexiconColumns) :
    Tame 10 column := by
  have hall : (lexiconColumns.all fun column => Statement.isTameAscii 10 column) = true := by
    decide +kernel
  exact Statement.tame_of_isTameAscii (List.all_eq_true.1 hall column h)

theorem mem_lexiconColumns_of_metricColumn? {table column : Text}
    (h : metricColumn? table = some column) : column ∈ lexiconColumns := by
  rcases Question.metricColumn?_eq h with rfl | rfl <;> decide

theorem mem_lexiconColumns_of_departmentColumn? {table column : Text}
    (h : departmentColumn? table = some column) : column ∈ lexiconColumns := by
  rcases Question.departmentColumn?_eq h with rfl | rfl <;> decide

theorem mem_lexiconColumns_of_defaultProjection (table : Text) :
    ∀ column ∈ defaultProjection table, column ∈ lexiconColumns := by
  rw [defaultProjection]
  split
  · decide
  · split
    · decide
    · split <;> decide

theorem Condition.column_mem {t : Table} {p : Predicate} (h : Condition t p) :
    p.column ∈ lexiconColumns := by
  cases h with
  | name hn hcolumn =>
    show "name".toList ∈ lexiconColumns
    decide
  | department hr hmap hcolumn => exact mem_lexiconColumns_of_departmentColumn? hmap
  | interval hmap hcolumn hlow hhigh => exact mem_lexiconColumns_of_metricColumn? hmap
  | amount hmap hcolumn hr hv => exact mem_lexiconColumns_of_metricColumn? hmap
  | hired hy hcolumn =>
    show "hire_date".toList ∈ lexiconColumns
    decide

/-! ## Conditions -/

/-- Every digit of an amount counts: the largest one has nineteen. -/
theorem tame_amount {v : Int} (h : IsAmount v) : Tame 19 (Literal.integer v).sql := by
  have hle : v ≤ 9223372036854775807 := h.2
  have hnonneg := h.1
  rw [Literal.sql, Text.ofInt, if_neg (by omega)]
  exact tame_ofNat (by decide) (by omega)

theorem tame_day {y : Nat} (hy : 1900 ≤ y ∧ y ≤ 2100) {month day : Nat} (hmonth : month < 100)
    (hday : day < 100) : Tame 19 (Literal.date ⟨y, month, day⟩).sql := by
  have htext := Date.tame_text (d := ⟨y, month, day⟩) (by constructor <;> simp only <;> omega)
    hmonth hday
  exact (tame_quoted htext).mono (by decide)

/-- The literals of a condition are short. -/
theorem Condition.tame_literal {t : Table} {p : Predicate} (h : Condition t p) :
    ∀ l ∈ p.operand.literals, Tame 19 l.sql := by
  intro l hl
  cases h with
  | name hn hcolumn =>
    rw [List.mem_singleton.1 hl]
    exact (tame_quoted (tame_of_hangul hn)).mono (by decide)
  | department hr hmap hcolumn =>
    rw [List.mem_singleton.1 hl]
    exact (tame_quoted (tame_of_hangul (isPersonName_department hr))).mono (by decide)
  | interval hmap hcolumn hlow hhigh =>
    rcases List.mem_pair.1 hl with rfl | rfl
    · exact tame_amount hlow
    · exact tame_amount hhigh
  | amount hmap hcolumn hr hv =>
    rw [List.mem_singleton.1 hl]
    exact tame_amount hv
  | hired hy hcolumn =>
    rcases List.mem_pair.1 hl with rfl | rfl <;> exact tame_day hy (by decide) (by decide)

/-- The conditions of a question are short. -/
theorem Condition.tame_sql {t : Table} {p : Predicate} (h : Condition t p) : Tame 64 p.sql :=
  (Predicate.tame_sql (tame_of_mem_lexiconColumns h.column_mem) h.tame_literal).mono (by decide)

/-! ## The request for an answer -/

namespace Question

variable {q : Question} {t : Table}

theorem length_conditions_le (q : Question) (t : Table) : (q.conditions t).length ≤ 4 := by
  have hone : ∀ o : Option Predicate, o.toList.length ≤ 1 := by
    intro o
    cases o <;> simp
  have hname := hone (q.nameCondition? t)
  have hdepartment := hone (q.departmentCondition? t (q.nameCondition? t).toList)
  have hamount := hone (q.amountCondition? t)
  have hhire := hone (q.hireCondition? t)
  rw [conditions]
  simp only [List.length_append]
  omega

/-- The columns to show are columns of the lexicon, at most all of them. -/
theorem projection_lexicon (q : Question) (t : Table) :
    (projection t (q.mentionedColumns t)).length ≤ 7 ∧
      ∀ column ∈ projection t (q.mentionedColumns t), column ∈ lexiconColumns := by
  have hrules : (columnRules.all fun r => lexiconColumns.contains r.column) = true := by decide
  have hinit := (nodup_defaultProjection t.name).filter t.hasColumn
  obtain ⟨hnodup, hmem⟩ := foldl_addNew (q.mentionedColumns t) _ hinit
  have hsub : ∀ column ∈ projection t (q.mentionedColumns t), column ∈ lexiconColumns := by
    intro column hc
    rcases hmem column hc with hc | hc
    · exact mem_lexiconColumns_of_defaultProjection _ column (List.mem_filter.1 hc).1
    · obtain ⟨r, hr, rfl⟩ := List.mem_map.1 hc
      exact List.contains_iff_mem.1 (List.all_eq_true.1 hrules r (List.mem_filter.1 hr).1)
  exact ⟨(hnodup.subperm hsub).length_le, hsub⟩

theorem mem_lexiconColumns_of_order? {o : Order} (h : q.order? t = some o) :
    o.column ∈ lexiconColumns := by
  rw [order?] at h
  split at h
  · exact absurd h (by simp)
  · next r hr =>
    have htarget : (orderRules.all fun r =>
        r.target == .metric || r.target == .column "hire_date") = true := by decide
    have hrule := List.all_eq_true.1 htarget r (List.mem_of_find?_eq_some hr)
    rw [Bool.or_eq_true, beq_iff_eq, beq_iff_eq] at hrule
    rcases hrule with hrule | hrule <;> rw [hrule] at h <;> simp only at h
    · split at h
      · exact absurd h (by simp)
      · next column hcolumn =>
        split at h
        · obtain rfl := Option.some.inj h
          exact mem_lexiconColumns_of_metricColumn? hcolumn
        · exact absurd h (by simp)
    · split at h
      · obtain rfl := Option.some.inj h
        show "hire_date".toList ∈ lexiconColumns
        decide
      · exact absurd h (by simp)

/-- The number of rows has ten digits at most. -/
theorem limit?_lt {ordered : Bool} {n : Nat} (h : q.limit? ordered = some n) : n < 10 ^ 10 := by
  rw [limit?] at h
  split at h
  · next m hm =>
    obtain rfl := Option.some.inj h
    rw [rowCountIn?] at hm
    split at hm
    · exact absurd hm (by simp)
    · have hle := Text.toNatUpTo?_le hm
      omega
  · split at h
    · obtain rfl := Option.some.inj h
      decide
    · split at h
      · obtain rfl := Option.some.inj h
        decide
      · exact absurd h (by simp)

/-- The columns that a figure can be computed over, and the lack of one. -/
def figureColumns : List Text := ["salary", "budget", []]

theorem metric_requestFor (q : Question) (t : Table) (name : Text) (a : Aggregate) :
    (q.requestFor t name (.aggregate a)).metric.getD [] ∈ figureColumns := by
  rw [requestFor]
  simp only [Intent.isAggregate, if_true]
  cases hm : (metricColumn? name).filter t.hasColumn with
  | none => decide
  | some m => rcases metricColumn?_eq (filter_hasColumn hm).1 with rfl | rfl <;> decide

end Question

/-! ## The parts of an answer -/

/-- What an answer can show besides columns. -/
def figures : List Text :=
  AggregateCall.count.sql :: Question.figureColumns.flatMap fun column =>
    [Aggregate.avg, .sum].map fun a => (AggregateCall.ofColumn a column).sql

/-- The ways to order an answer. -/
def lexiconOrders : List Text :=
  lexiconColumns.flatMap fun column => [Direction.asc, .desc].map fun d => (Order.mk column d).sql

/-- Parts that the lexicon has words for: a few columns and figures of a table, under conditions
that a question can set. -/
structure SelectParts.Spoken (t : Table) (p : SelectParts) : Prop where
  projection : p.projection.length ≤ 7 ∧ ∀ u ∈ p.projection, u ∈ lexiconColumns ++ figures
  table : p.table ∈ Question.tableNames
  conditions : p.conditions.length ≤ 4 ∧ ∀ u ∈ p.conditions, ∃ c, Condition t c ∧ c.sql = u
  groupBy : ∀ u, p.groupBy = some u → u ∈ lexiconColumns
  orderBy : ∀ u, p.orderBy = some u → u ∈ lexiconOrders
  limit : ∀ n, p.limit = some n → n < 10 ^ 10

/-- Parts that the lexicon has words for are modest. -/
theorem SelectParts.Spoken.modest {t : Table} {p : SelectParts} (h : p.Spoken t) : p.Modest := by
  obtain ⟨hshown, htable, horder⟩ :
      ((lexiconColumns ++ figures).all fun u => Statement.isTameAscii 40 u) = true ∧
      (Question.tableNames.all fun u => Statement.isTameAscii 12 u) = true ∧
      (lexiconOrders.all fun u => Statement.isTameAscii 20 u) = true := by decide +kernel
  have hall : ∀ {us : List Text} {n : Nat}, (us.all fun u => Statement.isTameAscii n u) = true →
      ∀ u ∈ us, Tame n u :=
    fun hus u hu => Statement.tame_of_isTameAscii (List.all_eq_true.1 hus u hu)
  refine ⟨⟨h.projection.1, fun u hu => ?_⟩, ?_, ⟨h.conditions.1, fun u hu => ?_⟩, fun u hu => ?_,
    fun u hu => ?_, h.limit⟩
  · exact hall hshown u (h.projection.2 u hu)
  · exact hall htable p.table h.table
  · obtain ⟨c, hc, rfl⟩ := h.conditions.2 u hu
    exact hc.tame_sql
  · exact (tame_of_mem_lexiconColumns (h.groupBy u hu)).mono (by decide)
  · exact hall horder u (h.orderBy u hu)

namespace Question

variable {q : Question} {t : Table}

/-- The conditions of a question as they are written, which are few. -/
theorem spoken_conditions (q : Question) (t : Table) :
    ((q.conditions t).map Predicate.sql).length ≤ 4 ∧
      ∀ u ∈ (q.conditions t).map Predicate.sql, ∃ c, Condition t c ∧ c.sql = u := by
  refine ⟨?_, fun u hu => ?_⟩
  · rw [List.length_map]
    exact length_conditions_le q t
  · obtain ⟨p, hp, rfl⟩ := List.mem_map.1 hu
    exact ⟨p, condition_of_mem hp, rfl⟩

theorem mem_figures {column : Text} (h : column ∈ figureColumns) (a : Aggregate) :
    (AggregateCall.ofColumn a column).sql ∈ figures := by
  refine List.mem_cons_of_mem _ (List.mem_flatMap.2 ⟨column, h, List.mem_map_of_mem ?_⟩)
  cases a <;> decide

theorem mem_lexiconOrders {o : Order} (h : q.order? t = some o) : o.sql ∈ lexiconOrders := by
  obtain ⟨column, direction⟩ := o
  refine List.mem_flatMap.2 ⟨column, mem_lexiconColumns_of_order? h, List.mem_map_of_mem ?_⟩
  cases direction <;> decide

/-- The lexicon has words for the plan of the request for an answer. -/
theorem spoken_requestFor (hname : t.name ∈ tableNames) (intent : Intent) :
    ((q.requestFor t t.name intent).planOver intent t).parts.Spoken t := by
  have hconditions := spoken_conditions q t
  rw [Request.parts_planOver]
  cases intent with
  | select =>
    obtain ⟨hlength, hlexicon⟩ := projection_lexicon q t
    refine ⟨⟨hlength, fun c hc => List.mem_append_left _ (hlexicon c hc)⟩, hname, hconditions,
      fun g hg => absurd hg (by simp), fun u hu => ?_, fun n hn => limit?_lt hn⟩
    obtain ⟨o, ho, rfl⟩ := Option.map_eq_some_iff.1 hu
    exact mem_lexiconOrders ho
  | count =>
    refine ⟨⟨by simp, fun c hc => ?_⟩, hname, hconditions, fun g hg => absurd hg (by simp),
      fun o ho => absurd ho (by simp), fun n hn => absurd hn (by simp)⟩
    rw [List.mem_singleton.1 hc]
    exact List.mem_append_right _ List.mem_cons_self
  | aggregate a =>
    have hgroup : ∀ g, (q.requestFor t t.name (.aggregate a)).groupBy = some g →
        g ∈ lexiconColumns := by
      intro g hg
      rw [(groupBy_requestFor hg).1]
      decide
    refine ⟨⟨?_, fun c hc => ?_⟩, hname, hconditions, hgroup, fun o ho => absurd ho (by simp),
      fun n hn => absurd hn (by simp)⟩
    · show ((q.requestFor t t.name (.aggregate a)).groupBy.toList ++ [_]).length ≤ 7
      cases (q.requestFor t t.name (.aggregate a)).groupBy <;> simp
    · rcases List.mem_append.1 hc with hc | hc
      · exact List.mem_append_left _ (hgroup c (Option.mem_toList.1 hc))
      · rw [List.mem_singleton.1 hc]
        exact List.mem_append_right _ (mem_figures (metric_requestFor q t t.name a) a)

end Question

/-- The lexicon has words for the plan of the general listing. -/
theorem Request.spoken_fallback {t : Table} (hname : t.name = defaultTable) :
    (Request.fallback.planOver .select t).parts.Spoken t := by
  have hparts : (Request.fallback.planOver .select t).parts
      = ⟨defaultTable, defaultProjection defaultTable, [], none, none, some fallbackLimit⟩ := by
    rw [parts_planOver, hname]
    rfl
  rw [hparts]
  refine ⟨⟨by decide, fun c hc => ?_⟩, by decide,
    ⟨by decide, fun u hu => absurd hu List.not_mem_nil⟩,
    fun g hg => absurd hg (by simp), fun o ho => absurd ho (by simp), fun n hn => ?_⟩
  · exact List.mem_append_left _ (mem_lexiconColumns_of_defaultProjection defaultTable c hc)
  · obtain rfl := Option.some.inj hn
    decide

end SqlScribe
