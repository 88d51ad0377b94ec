import SqlScribe.Proofs.Plan.Pieces
import SqlScribe.Proofs.Statement.NormalForm

/-!
# The outline of a plan

The statement of a plan, scanned, has the clauses of the plan and no others, whatever
characters its text literals are made of. Main statements:

* `SelectParts.normalize_sql`: a statement in normal form is an outline, written;
* `Request.outline_planOver`: the clauses of a request are those of its plan;
* `Request.scan_build`: the outline of a statement that answers a request.
-/

namespace SqlScribe

open Outline (Compact Solid)

/-! ## The clauses of a plan -/

namespace SelectParts

/-- The parts as clauses, as they are written. -/
def clauses (p : SelectParts) : List Clause :=
  [⟨.select, p.shown⟩, ⟨.from, p.table⟩] ++ (p.condition?.map (Clause.mk .where)).toList
    ++ (p.groupBy.map (Clause.mk .groupBy)).toList ++ (p.orderBy.map (Clause.mk .orderBy)).toList
    ++ ((p.limit.map Text.ofNat).map (Clause.mk .limit)).toList

/-- What holds of the parts as they are written holds of the bodies of the clauses. -/
theorem forall_mem_clauses {P : Text → Prop} {p : SelectParts} (hstar : P ['*'])
    (hshown : p.projection ≠ [] → P (Text.join ", " p.projection)) (htable : P p.table)
    (hcondition : p.conditions ≠ [] → P (Text.join " AND " p.conditions))
    (hgroup : ∀ g, p.groupBy = some g → P g) (horder : ∀ o, p.orderBy = some o → P o)
    (hlimit : ∀ n, p.limit = some n → P (Text.ofNat n)) : ∀ c ∈ p.clauses, P c.body := by
  intro c hc
  simp only [clauses, List.mem_append, List.mem_cons, List.not_mem_nil, or_false,
    Option.mem_toList, Option.map_eq_some_iff] at hc
  rcases hc with ((((rfl | rfl) | ⟨b, hb, rfl⟩) | ⟨g, hg, rfl⟩) | ⟨o, ho, rfl⟩) |
    ⟨t, ⟨n, hn, rfl⟩, rfl⟩
  · show P p.shown
    rw [shown]
    split
    · exact hstar
    · next hne => exact hshown (by simpa using hne)
  · exact htable
  · rw [condition?] at hb
    split at hb
    · exact absurd hb (by simp)
    · next hne => exact Option.some.inj hb ▸ hcondition (by simpa using hne)
  · exact hgroup g hg
  · exact horder o ho
  · exact hlimit n hn

/-- The outline of the parts: their clauses in order, each collapsed. -/
def outline (p : SelectParts) : Outline :=
  ⟨p.clauses.map fun c => ⟨c.kind, Text.collapse c.body⟩, true⟩

/-- A clause that may be missing is written behind the others. -/
theorem join_option {k : ClauseKind} (hk : k ≠ .leading) {cs : List Clause} (hcs : cs ≠ [])
    (o : Option Text) :
    Text.join [' '] ((cs ++ (o.map (Clause.mk k)).toList).map Outline.writeClause)
      = Text.join [' '] (cs.map Outline.writeClause) ++ clause (" " ++ k.word ++ " ") o := by
  cases o with
  | none => simp [clause]
  | some body =>
    have hmap : cs.map Outline.writeClause ≠ [] := by simpa using hcs
    rw [List.map_append, Text.join_append _ hmap (by simp)]
    simp [clause, Text.join, Outline.writeClause_eq (c := ⟨k, body⟩) hk]

theorem sql_eq (p : SelectParts) :
    p.sql = Text.join [' '] (p.clauses.map Outline.writeClause) := by
  have hselect : ("SELECT " : Text) = ClauseKind.select.word ++ " " := by decide
  have hfrom : (" FROM " : Text) = " " ++ (ClauseKind.from.word ++ " ") := by decide
  have hwhere : (" WHERE " : Text) = " " ++ ClauseKind.where.word ++ " " := by decide
  have hgroup : (" GROUP BY " : Text) = " " ++ ClauseKind.groupBy.word ++ " " := by decide
  have horder : (" ORDER BY " : Text) = " " ++ ClauseKind.orderBy.word ++ " " := by decide
  have hlimit : (" LIMIT " : Text) = " " ++ ClauseKind.limit.word ++ " " := by decide
  have hfront : Text.join [' '] (([⟨.select, p.shown⟩, ⟨.from, p.table⟩] : List Clause).map
      Outline.writeClause) = ClauseKind.select.word ++ " " ++ p.shown ++
        (" " ++ (ClauseKind.from.word ++ " ")) ++ p.table := by
    simp only [List.map_cons, List.map_nil, Outline.writeClause, Text.join, List.append_assoc]
    rfl
  rw [clauses, join_option (by decide) (by simp), join_option (by decide) (by simp),
    join_option (by decide) (by simp), join_option (by decide) (by simp), hfront]
  unfold sql
  simp only [hselect, hfrom, hwhere, hgroup, horder, hlimit]

/-- The clauses come in the order of SQL. -/
theorem kinds_sublist (p : SelectParts) :
    (p.clauses.map Clause.kind).Sublist [.select, .from, .where, .groupBy, .orderBy, .limit] := by
  have hoption : ∀ (k : ClauseKind) (o : Option Text),
      (((o.map (Clause.mk k)).toList).map Clause.kind).Sublist [k] := by
    intro k o
    cases o with
    | none => exact List.nil_sublist _
    | some b => exact List.Sublist.refl _
  rw [clauses]
  simp only [List.map_append]
  exact (((List.Sublist.refl [ClauseKind.select, .from]).append (hoption .where _)).append
    (hoption .groupBy _)).append (hoption .orderBy _) |>.append (hoption .limit _)

theorem kind_ne_leading {p : SelectParts} {c : Clause} (hc : c ∈ p.clauses) :
    c.kind ≠ .leading := by
  intro hk
  have hmem := p.kinds_sublist.subset (List.mem_map_of_mem hc)
  rw [hk] at hmem
  exact absurd hmem (by decide)

/-- A statement of compact parts is compact. -/
theorem compact_sql {p : SelectParts} (h : ∀ c ∈ p.clauses, Compact c.body) : Compact p.sql := by
  rw [sql_eq]
  refine Compact.join Outline.separates_space (by simp [clauses]) fun t ht => ?_
  obtain ⟨c, hc, rfl⟩ := List.mem_map.1 ht
  exact Outline.compact_writeClause (kind_ne_leading hc) (h c hc)

/-- An outline of solid bodies is well-formed. -/
theorem wellFormed_outline {p : SelectParts}
    (h : ∀ c ∈ p.clauses, Solid (Text.collapse c.body)) : p.outline.WellFormed := by
  have hkinds : p.outline.clauses.map Clause.kind = p.clauses.map Clause.kind := by
    simp [outline]
  have hsub := p.kinds_sublist
  refine ⟨?_, fun c hc => ?_, fun c hc => ?_⟩
  · have hordered : ([.select, .from, .where, .groupBy, .orderBy, .limit] :
        List ClauseKind).Pairwise fun a b => a.rank < b.rank := by decide
    have hpair := hordered.sublist hsub
    rw [← hkinds, List.pairwise_map] at hpair
    exact hpair
  · obtain ⟨d, hd, rfl⟩ := List.mem_map.1 hc
    show d.kind ≠ .leading
    exact kind_ne_leading hd
  · obtain ⟨d, hd, rfl⟩ := List.mem_map.1 hc
    exact h d hd

/-- The layout of the clauses does not count once the whole is collapsed. -/
theorem collapse_sql (p : SelectParts) : Text.collapse p.sql
    = Text.collapse (Text.join [' '] (p.outline.clauses.map Outline.writeClause)) := by
  have hwords : ∀ c ∈ p.clauses, Text.words (Outline.writeClause c)
      = Text.words (Outline.writeClause ⟨c.kind, Text.collapse c.body⟩) := by
    intro c hc
    have hkind := kind_ne_leading hc
    have hkind' : (Clause.mk c.kind (Text.collapse c.body)).kind ≠ .leading := hkind
    rw [Outline.writeClause_eq hkind, Outline.writeClause_eq hkind',
      Text.words_append_cons (by decide), Text.words_append_cons (by decide), Text.words_collapse]
  rw [Text.collapse, Text.collapse, sql_eq, Text.words_join_spaces, Text.words_join_spaces,
    outline, List.map_map, List.flatMap_map, List.flatMap_map]
  exact congrArg (Text.join [' ']) (List.flatMap_congr hwords)

/-- **The normal form of a statement of parts.** It is their outline, written. -/
theorem normalize_sql {p : SelectParts} (h : ∀ c ∈ p.clauses, Solid (Text.collapse c.body)) :
    Statement.normalize p.sql = p.outline.render := by
  have hwf := wellFormed_outline h
  have hsemi : ';' ∉ Text.collapse p.sql := by
    rw [collapse_sql]
    exact Outline.semicolon_not_mem_collapse fun c hc => (hwf.solid c hc).no_semicolon
  rw [Outline.render_terminated rfl, ← collapse_sql, Statement.normalize_eq_collapse hsemi]

end SelectParts

/-! ## The clauses of a request -/

namespace Request

/-- The conditions of a request as they are written, collapsed. -/
def whereClauses (r : Request) : List Clause :=
  if r.conditions.isEmpty then []
  else [⟨.where, Text.collapse (Text.join " AND " (r.conditions.map Predicate.sql))⟩]

/-- The clauses that answer a request. Rows are asked for with the columns and the order, a
count with nothing but the conditions, a figure with its grouping. -/
def clauses (r : Request) (intent : Intent) : List Clause :=
  match intent with
  | .select =>
      [⟨.select, if r.columns.isEmpty then "*" else Text.join ", " r.columns⟩, ⟨.from, r.table⟩]
        ++ r.whereClauses ++ (r.order.map fun o => ⟨.orderBy, o.sql⟩).toList
        ++ (r.limit.map fun n => ⟨.limit, Text.ofNat n⟩).toList
  | .count => [⟨.select, "COUNT(*) AS count"⟩, ⟨.from, r.table⟩] ++ r.whereClauses
  | .aggregate a =>
      [⟨.select, Text.join ", "
          (r.groupBy.toList ++ [(AggregateCall.ofColumn a (r.metric.getD [])).sql])⟩,
        ⟨.from, r.table⟩]
        ++ r.whereClauses ++ (r.groupBy.map fun g => ⟨.groupBy, g⟩).toList

/-- What the statement of a request is made of: good names and safe literals. -/
structure Writable (good : Text → Bool) (r : Request) (intent : Intent) : Prop where
  table : good r.table = true
  columns : intent = .select → ∀ c ∈ r.columns, good c = true
  order : intent = .select → ∀ o, r.order = some o → good o.column = true
  metric : intent.isAggregate = true → good (r.metric.getD []) = true
  groupBy : intent.isAggregate = true → ∀ g, r.groupBy = some g → good g = true
  conditions : ∀ p ∈ r.conditions, good p.column = true ∧ ∀ l ∈ p.operand.literals, l.Safe

/-- A request without a fault is writable, when its table has good names. -/
theorem writable_of_fault? {good : Text → Bool} {r : Request} {intent : Intent} {t : Table}
    (ht : t.namesAll good = true) (hname : t.name = r.table) (h : r.fault? intent t = none) :
    r.Writable good intent := by
  obtain ⟨hconditions, hintent⟩ := fault?_eq_none_iff.1 h
  have hgood : ∀ name, t.hasColumn name = true → good name = true :=
    fun _ hc => Table.good_of_hasColumn ht hc
  have htable : good r.table = true := by
    rw [Table.namesAll, Bool.and_eq_true] at ht
    exact hname ▸ ht.1
  refine ⟨htable, ?_, ?_, ?_, ?_, fun p hp => ?_⟩
  · rintro rfl c hc
    rw [intentFault?, Option.or_eq_none_iff] at hintent
    exact hgood c ((Table.projectionFault?_eq_none_iff.1 hintent.1).1 c hc).1
  · rintro rfl o ho
    rw [intentFault?, Option.or_eq_none_iff, ho] at hintent
    exact hgood _ (Table.columnFault?_eq_none_iff.1 hintent.2)
  · intro hagg
    cases intent with
    | aggregate a =>
      rw [intentFault?, Option.or_eq_none_iff] at hintent
      obtain ⟨m, hm, hcolumn⟩ := Table.metric_of_metricFault? hintent.1
      rw [hm]
      exact hgood m hcolumn
    | select => exact absurd hagg (by decide)
    | count => exact absurd hagg (by decide)
  · intro hagg g hg
    cases intent with
    | aggregate a =>
      rw [intentFault?, Option.or_eq_none_iff, hg] at hintent
      exact hgood g (Table.columnFault?_eq_none_iff.1 hintent.2)
    | select => exact absurd hagg (by decide)
    | count => exact absurd hagg (by decide)
  · have hp := hconditions p hp
    exact ⟨hgood _ (Table.hasColumn_of_predicateFault? hp), Table.safe_of_predicateFault? hp⟩

/-- The conditions of a writable request are a solid body. -/
theorem solid_where {r : Request} {intent : Intent} (h : r.Writable isPlainName intent)
    (hne : r.conditions ≠ []) :
    Solid (Text.collapse (Text.join " AND " (r.conditions.map Predicate.sql))) := by
  refine solid_collapse_conjunction (by simpa using hne) fun t ht => ?_
  obtain ⟨p, hp, rfl⟩ := List.mem_map.1 ht
  exact Predicate.solid_collapse (h.conditions p hp).1 (h.conditions p hp).2

/-- The clauses of a writable request are solid. -/
theorem solid_clauses {r : Request} {intent : Intent} (h : r.Writable isPlainName intent) :
    ∀ c ∈ r.clauses intent, Solid c.body := by
  have htable := solid_of_isPlainName h.table
  have hwhere : ∀ c ∈ r.whereClauses, Solid c.body := by
    intro c hc
    rw [whereClauses] at hc
    split at hc
    · exact absurd hc List.not_mem_nil
    · next hne =>
      rw [List.mem_singleton.1 hc]
      exact solid_where h (by simpa using hne)
  intro c hc
  cases intent with
  | select =>
    simp only [clauses, List.mem_append, List.mem_cons, List.not_mem_nil, or_false,
      Option.mem_toList, Option.map_eq_some_iff] at hc
    rcases hc with (((rfl | rfl) | hc) | ⟨o, ho, rfl⟩) | ⟨n, hn, rfl⟩
    · show Solid (if r.columns.isEmpty then "*" else Text.join ", " r.columns)
      split
      · exact Outline.solid_signs (by decide) (by decide)
      · next hne =>
        exact Solid.join Outline.separates_comma (by simpa using hne)
          fun t ht => solid_of_isPlainName (h.columns rfl t ht)
    · exact htable
    · exact hwhere c hc
    · exact Order.solid_sql (h.order rfl o ho)
    · exact solid_ofNat n
  | count =>
    simp only [clauses, List.mem_append, List.mem_cons, List.not_mem_nil, or_false] at hc
    rcases hc with (rfl | rfl) | hc
    · exact AggregateCall.solid_count
    · exact htable
    · exact hwhere c hc
  | aggregate a =>
    simp only [clauses, List.mem_append, List.mem_cons, List.not_mem_nil, or_false,
      Option.mem_toList, Option.map_eq_some_iff] at hc
    rcases hc with ((rfl | rfl) | hc) | ⟨g, hg, rfl⟩
    · refine Solid.join Outline.separates_comma (by simp) fun t ht => ?_
      simp only [List.mem_append, Option.mem_toList, List.mem_cons, List.not_mem_nil,
        or_false] at ht
      rcases ht with ht | rfl
      · exact solid_of_isPlainName (h.groupBy rfl t ht)
      · exact AggregateCall.solid_ofColumn (h.metric rfl)
    · exact htable
    · exact hwhere c hc
    · exact solid_of_isPlainName (h.groupBy rfl g hg)

/-- The parts of the plan of a request. -/
theorem parts_planOver (r : Request) (intent : Intent) (t : Table) :
    (r.planOver intent t).parts =
      match intent with
      | .select =>
          ⟨t.name, r.columns, r.conditions.map Predicate.sql, none, r.order.map Order.sql, r.limit⟩
      | .count =>
          ⟨t.name, [AggregateCall.count.sql], r.conditions.map Predicate.sql, none, none, none⟩
      | .aggregate a =>
          ⟨t.name, r.groupBy.toList ++ [(AggregateCall.ofColumn a (r.metric.getD [])).sql],
            r.conditions.map Predicate.sql, r.groupBy, none, none⟩ := by
  have hrows : (r.rows t).parts
      = ⟨t.name, [], r.conditions.map Predicate.sql, none, none, none⟩ := by
    rw [rows]
    split
    · next h => simp [Plan.parts, List.isEmpty_iff.1 h]
    · simp [Plan.parts]
  cases intent with
  | select =>
    rw [planOver]
    cases r.order <;> cases r.limit <;> simp [Plan.parts, hrows]
  | count => simp [planOver, Plan.parts, hrows]
  | aggregate a => simp [planOver, Plan.parts, hrows]

/-- A clause with its body collapsed. -/
def collapsed (c : Clause) : Clause := ⟨c.kind, Text.collapse c.body⟩

theorem collapsed_whereClauses (r : Request) (p : SelectParts)
    (h : p.conditions = r.conditions.map Predicate.sql) :
    ((p.condition?.map (Clause.mk .where)).toList).map collapsed
      = r.whereClauses.map collapsed := by
  rw [SelectParts.condition?, whereClauses, h, List.isEmpty_map]
  split
  · rfl
  · simp [collapsed, Text.collapse_collapse]

/-- The outline of the plan of a writable request is made of the clauses of the request. -/
theorem outline_planOver {r : Request} {intent : Intent} {t : Table}
    (h : r.Writable isPlainName intent) (hname : t.name = r.table) :
    (r.planOver intent t).parts.outline = ⟨r.clauses intent, true⟩ := by
  have hself : (r.clauses intent).map collapsed = r.clauses intent := by
    refine (List.map_congr_left fun c hc => ?_).trans (List.map_id _)
    rw [collapsed, (solid_clauses h c hc).collapse_eq]
    rfl
  have hraw : (r.planOver intent t).parts.clauses.map collapsed
      = (r.clauses intent).map collapsed := by
    have hwhere := collapsed_whereClauses r (r.planOver intent t).parts
      (by rw [parts_planOver]; cases intent <;> rfl)
    rw [SelectParts.clauses]
    simp only [List.map_append, hwhere]
    rw [parts_planOver]
    cases intent with
    | select =>
      simp only [clauses, List.map_append, SelectParts.shown, hname]
      cases r.order <;> cases r.limit <;> simp
    | count =>
      simp [clauses, SelectParts.shown, hname, Text.join, AggregateCall.sql, AggregateCall.count]
    | aggregate a =>
      simp only [clauses, List.map_append, SelectParts.shown, hname]
      cases r.groupBy <;> simp
  have hclauses := hraw.trans hself
  rw [SelectParts.outline]
  exact congrArg (Outline.mk · true) hclauses

/-- When all names are plain, the plan of a request is made of solid clauses, those of the
request. -/
theorem solid_plan {s : Schema} (hs : s.namesPlain = true) {r : Request} {intent : Intent}
    {p : Plan} (h : r.plan intent s = .ok p) :
    (∀ c ∈ p.parts.clauses, Solid (Text.collapse c.body)) ∧
      p.parts.outline = ⟨r.clauses intent, true⟩ := by
  obtain ⟨t, ht, hfault, rfl⟩ := plan_eq_ok_iff.1 h
  obtain ⟨hplain, hname⟩ := Schema.namesAll_of_table? hs ht
  have hwritable := writable_of_fault? hplain hname hfault
  have houtline := outline_planOver hwritable hname
  -- the clauses of the plan, collapsed, are those of the request, and these are solid
  refine ⟨fun c hc => ?_, houtline⟩
  have hmem : collapsed c ∈ (r.planOver intent t).parts.outline.clauses :=
    List.mem_map_of_mem (f := collapsed) hc
  rw [houtline] at hmem
  exact solid_clauses hwritable _ hmem

/-- **The outline of an answer.** When all names are plain, the statement that answers a
request is read with its terminator and with the clauses of its plan, in order: whatever its
text literals are made of, they open, end and move none. -/
theorem scan_build {s : Schema} (hs : s.namesPlain = true) {r : Request} {intent : Intent}
    {st : Statement} (h : r.build intent s = .ok st) :
    ∃ p, r.plan intent s = .ok p ∧ Outline.scan st.text = p.parts.outline ∧
      p.parts.outline = ⟨r.clauses intent, true⟩ := by
  obtain ⟨p, hp, rfl⟩ := build_eq_ok_iff.1 h
  obtain ⟨hsolid, houtline⟩ := solid_plan hs hp
  refine ⟨p, hp, ?_, houtline⟩
  show Outline.scan (Statement.normalize p.sql) = _
  rw [Plan.sql, SelectParts.normalize_sql hsolid,
    Outline.scan_render (SelectParts.wellFormed_outline hsolid) rfl]

/-- Rows under a condition whose text is full of what could open or end a clause. -/
def crooked : Request where
  table := "employees"
  columns := ["name", "salary"]
  conditions := [.compare "name" .eq (.text "a)  FROM (\"[ -- /*\n ORDER BY \x60 LIMIT 1")]
  order := some ⟨"salary", .desc⟩
  limit := some 5

theorem scan_build_crooked :
    Schema.humanResources.namesPlain = true ∧
      ∃ st, crooked.build .select .humanResources = .ok st ∧ (Outline.scan st.text).clauses =
        [⟨.select, "name, salary"⟩, ⟨.from, "employees"⟩,
          ⟨.where, "name = 'a) FROM (\"[ -- /* ORDER BY \x60 LIMIT 1'"⟩,
          ⟨.orderBy, "salary DESC"⟩, ⟨.limit, "5"⟩] := by
  have hplain : Schema.humanResources.namesPlain = true := by decide +kernel
  obtain ⟨st, hbuild⟩ : ∃ st, crooked.build .select .humanResources = .ok st := ⟨_, rfl⟩
  obtain ⟨p, -, hscan, hclauses⟩ := scan_build hplain hbuild
  refine ⟨hplain, st, hbuild, ?_⟩
  rw [hscan, hclauses]
  decide +kernel

end Request

end SqlScribe
