import SqlScribe.Proofs.Pattern.Search
import SqlScribe.Proofs.Plan.Check
import SqlScribe.Proofs.Question.Amount
import SqlScribe.Question.Reading

/-!
# The conditions of a question

Everything that can stand in the conditions a question is read as, whatever the question
is. Main statements:

* `isPersonName_of_personNameIn?`: a name is made of a few Hangul syllables;
* `condition_of_mem`: the kinds of conditions there are;
* `nodup_conditions`: no column is compared twice;
* `Condition.fits`: a check can find nothing wrong but the type of a column.
-/

namespace SqlScribe

/-! ## Names -/

/-- Up to four Hangul syllables. -/
def IsPersonName (n : Text) : Prop := n.length ≤ 4 ∧ ∀ c ∈ n, CharClass.hangul.has c = true

/-- A name that a text mentions is made of a few syllables. -/
theorem isPersonName_of_personNameIn? {t n : Text} (h : personNameIn? t = some n) :
    IsPersonName n := by
  obtain ⟨p, hp, hn⟩ := List.exists_of_findSome?_eq_some h
  obtain ⟨m, hm, rfl⟩ := List.mem_map.1 (List.mem_of_find?_eq_some hn)
  obtain ⟨v, w, -, hof⟩ := Pattern.isOf_of_mem_findAll hm
  rw [Match.group]
  cases hg : m.group? 1 with
  | none => exact ⟨Nat.zero_le _, fun _ hc => absurd hc List.not_mem_nil⟩
  | some u =>
    obtain ⟨q, hq, -, hu⟩ := hof.groups _ (Match.mem_groups_of_group? hg)
    have hgroups : p.groups
        = [(1, Pattern.times 2 (.one .hangul) ++ Pattern.upTo 2 (.one .hangul))] := by
      simp only [NamePattern.all, List.mem_cons, List.not_mem_nil, or_false] at hp
      rcases hp with rfl | rfl | rfl <;> rfl
    rw [hgroups, List.mem_singleton] at hq
    obtain rfl := (Prod.mk.inj hq).2
    obtain ⟨a, b, rfl, ha, hb⟩ := hu
    obtain ⟨hlen, hall⟩ := Pattern.of_spells_times ha
    obtain ⟨hlen', hall'⟩ := Pattern.of_spells_upTo hb
    refine ⟨?_, fun c hc => ?_⟩
    · show (a ++ b).length ≤ 4
      rw [List.length_append]
      omega
    · rcases List.mem_append.1 hc with hc | hc
      · exact hall c hc
      · exact hall' c hc

/-! ## The kinds of conditions -/

/-- The conditions a question can be read as, over a table. -/
inductive Condition (t : Table) : Predicate → Prop where
  | name {n : Text} (hn : IsPersonName n) (hcolumn : t.hasColumn "name" = true) :
      Condition t (.compare "name" .eq (.text n))
  | department {r : DepartmentRule} (hr : r ∈ departmentRules) {column : Text}
      (hmap : departmentColumn? t.name = some column) (hcolumn : t.hasColumn column = true) :
      Condition t (.compare column .eq (.text r.department))
  | interval {column : Text} (hmap : metricColumn? t.name = some column)
      (hcolumn : t.hasColumn column = true) {low high : Int} (hlow : IsAmount low)
      (hhigh : IsAmount high) : Condition t (.between column (.integer low) (.integer high))
  | amount {column : Text} (hmap : metricColumn? t.name = some column)
      (hcolumn : t.hasColumn column = true) {r : ComparisonRule} (hr : r ∈ comparisonRules)
      {v : Int} (hv : IsAmount v) : Condition t (.compare column r.operator (.integer v))
  | hired {y : Nat} (hy : 1900 ≤ y ∧ y ≤ 2100) (hcolumn : t.hasColumn "hire_date" = true) :
      Condition t (.between "hire_date" (.date ⟨y, 1, 1⟩) (.date ⟨y, 12, 31⟩))

namespace Question

variable {q : Question} {t : Table} {p : Predicate}

theorem condition_of_nameCondition? (h : q.nameCondition? t = some p) :
    Condition t p ∧ p.column = "name" := by
  rw [nameCondition?] at h
  split at h
  · next n hn =>
    split at h
    · next hcolumn =>
      obtain rfl := Option.some.inj h
      exact ⟨.name (isPersonName_of_personNameIn? hn) hcolumn, rfl⟩
    · exact absurd h (by simp)
  · exact absurd h (by simp)

theorem filter_hasColumn {o : Option Text} {column : Text}
    (h : o.filter t.hasColumn = some column) : o = some column ∧ t.hasColumn column = true :=
  Option.filter_eq_some_iff.1 h

theorem condition_of_departmentCondition? {ps : List Predicate}
    (h : q.departmentCondition? t ps = some p) :
    Condition t p ∧ departmentColumn? t.name = some p.column ∧
      ∀ x ∈ ps, x.column ≠ p.column := by
  rw [departmentCondition?] at h
  split at h
  · next r column hr hcolumn =>
    obtain ⟨hmap, hhas⟩ := filter_hasColumn hcolumn
    split at h
    · exact absurd h (by simp)
    · next hfree =>
      obtain rfl := Option.some.inj h
      refine ⟨.department (List.mem_of_find?_eq_some hr) hmap hhas, hmap, fun x hx he => ?_⟩
      exact hfree (List.any_eq_true.2 ⟨x, hx, beq_iff_eq.2 he⟩)
  · exact absurd h (by simp)

theorem condition_of_amountCondition? (h : q.amountCondition? t = some p) :
    Condition t p ∧ metricColumn? t.name = some p.column := by
  rw [amountCondition?] at h
  split at h
  · next low high column hamount hcolumn =>
    obtain ⟨hmap, hhas⟩ := filter_hasColumn hcolumn
    obtain rfl := Option.some.inj h
    have hbounded := bounded_of_amountIn? hamount
    exact ⟨.interval hmap hhas hbounded.1 hbounded.2.1, hmap⟩
  · next v column hamount hcolumn =>
    obtain ⟨hmap, hhas⟩ := filter_hasColumn hcolumn
    obtain ⟨r, hr, rfl⟩ := Option.map_eq_some_iff.1 h
    have hbounded : IsAmount v := bounded_of_amountIn? hamount
    exact ⟨.amount hmap hhas (List.mem_of_find?_eq_some hr) hbounded, hmap⟩
  · exact absurd h (by simp)

theorem calendarYear?_eq {text : Text} {d : Date × Date} (h : calendarYear? text = some d) :
    ∃ y : Nat, (1900 ≤ y ∧ y ≤ 2100) ∧ d = (⟨y, 1, 1⟩, ⟨y, 12, 31⟩) := by
  rw [calendarYear?] at h
  split at h
  · exact absurd h (by simp)
  · split at h
    · exact absurd h (by simp)
    · next y _ =>
      split at h
      · next hy => exact ⟨y, hy, (Option.some.inj h).symm⟩
      · exact absurd h (by simp)

theorem condition_of_hireCondition? (h : q.hireCondition? t = some p) :
    Condition t p ∧ p.column = "hire_date" := by
  rw [hireCondition?] at h
  split at h
  · next hif =>
    rw [Bool.and_eq_true] at hif
    obtain ⟨d, hd, rfl⟩ := Option.map_eq_some_iff.1 h
    obtain ⟨y, hy, rfl⟩ := calendarYear?_eq hd
    exact ⟨.hired hy hif.2, rfl⟩
  · exact absurd h (by simp)

/-- Every condition of a question is of one of the kinds. -/
theorem condition_of_mem (h : p ∈ q.conditions t) : Condition t p := by
  rw [conditions] at h
  simp only [List.mem_append, Option.mem_toList] at h
  rcases h with ((h | h) | h) | h
  · exact (condition_of_nameCondition? h).1
  · exact (condition_of_departmentCondition? h).1
  · exact (condition_of_amountCondition? h).1
  · exact (condition_of_hireCondition? h).1

/-! ## One condition for each column -/

theorem departmentColumn?_eq {table column : Text} (h : departmentColumn? table = some column) :
    column = "department".toList ∨ column = "name".toList := by
  rw [departmentColumn?] at h
  split at h
  · exact Or.inl (Option.some.inj h).symm
  · split at h
    · exact Or.inr (Option.some.inj h).symm
    · exact absurd h (by simp)

theorem metricColumn?_eq {table column : Text} (h : metricColumn? table = some column) :
    column = "salary".toList ∨ column = "budget".toList := by
  rw [metricColumn?] at h
  split at h
  · exact Or.inl (Option.some.inj h).symm
  · split at h
    · exact Or.inr (Option.some.inj h).symm
    · exact absurd h (by simp)

theorem nodup_map_toList {α β : Type} (f : α → β) (o : Option α) : (o.toList.map f).Nodup := by
  cases o <;> simp

/-- The conditions of a question are on columns that are all different. -/
theorem nodup_conditions (q : Question) (t : Table) :
    ((q.conditions t).map Predicate.column).Nodup := by
  have hname : ∀ x ∈ (q.nameCondition? t).toList.map Predicate.column, x = "name".toList := by
    intro x hx
    obtain ⟨p, hp, rfl⟩ := List.mem_map.1 hx
    exact (condition_of_nameCondition? (Option.mem_toList.1 hp)).2
  have hhire : ∀ x ∈ (q.hireCondition? t).toList.map Predicate.column, x = "hire_date".toList := by
    intro x hx
    obtain ⟨p, hp, rfl⟩ := List.mem_map.1 hx
    exact (condition_of_hireCondition? (Option.mem_toList.1 hp)).2
  have hamount : ∀ x ∈ (q.amountCondition? t).toList.map Predicate.column,
      x = "salary".toList ∨ x = "budget".toList := by
    intro x hx
    obtain ⟨p, hp, rfl⟩ := List.mem_map.1 hx
    exact metricColumn?_eq (condition_of_amountCondition? (Option.mem_toList.1 hp)).2
  have hdepartment : ∀ x ∈ (q.departmentCondition? t (q.nameCondition? t).toList).toList.map
      Predicate.column, (x = "department".toList ∨ x = "name".toList) ∧
        x ∉ (q.nameCondition? t).toList.map Predicate.column := by
    intro x hx
    obtain ⟨p, hp, rfl⟩ := List.mem_map.1 hx
    obtain ⟨-, hcolumn, hfree⟩ := condition_of_departmentCondition? (Option.mem_toList.1 hp)
    refine ⟨departmentColumn?_eq hcolumn, fun hmem => ?_⟩
    obtain ⟨y, hy, hyp⟩ := List.mem_map.1 hmem
    exact hfree y hy hyp
  -- only a department can be on the column of a name, and it is left out when a name is there
  rw [conditions]
  simp only [List.map_append]
  rw [List.nodup_append, List.nodup_append, List.nodup_append]
  refine ⟨⟨⟨nodup_map_toList _ _, nodup_map_toList _ _, ?_⟩, nodup_map_toList _ _, ?_⟩,
    nodup_map_toList _ _, ?_⟩
  · rintro x hx y hy rfl
    exact (hdepartment x hy).2 hx
  · rintro x hx y hy rfl
    rcases List.mem_append.1 hx with hx | hx
    · rcases hamount x hy with h | h <;> exact absurd ((hname x hx).symm.trans h) (by decide)
    · rcases (hdepartment x hx).1 with h | h <;> rcases hamount x hy with h' | h' <;>
        exact absurd (h.symm.trans h') (by decide)
  · rintro x hx y hy rfl
    have hdate := hhire x hy
    rcases List.mem_append.1 hx with hx | hx
    · rcases List.mem_append.1 hx with hx | hx
      · exact absurd ((hname x hx).symm.trans hdate) (by decide)
      · rcases (hdepartment x hx).1 with h | h <;> exact absurd (h.symm.trans hdate) (by decide)
    · rcases hamount x hx with h | h <;> exact absurd (h.symm.trans hdate) (by decide)

end Question

/-! ## What a check finds -/

/-- A Hangul syllable can end no literal. -/
theorem isUnsafe_of_hangul {c : Char} (h : CharClass.hangul.has c = true) : isUnsafe c = false := by
  refine Bool.eq_false_iff.2 fun hu => ?_
  simp only [isUnsafe, Bool.or_eq_true, beq_iff_eq] at hu
  rcases hu with (rfl | rfl) | rfl <;> exact absurd h (by decide)

/-- Conditions fit the table they are read over. -/
theorem Condition.fits {t : Table} {p : Predicate} (h : Condition t p) : p.Fits t := by
  cases h with
  | name hn hcolumn =>
    refine ⟨hcolumn, fun l hl => ?_, by simp [Predicate.compare]⟩
    rw [List.mem_singleton.1 hl]
    exact fun c hc => isUnsafe_of_hangul (hn.2 c hc)
  | department hr hmap hcolumn =>
    refine ⟨hcolumn, fun l hl => ?_, by simp [Predicate.compare]⟩
    have hall : (departmentRules.all fun r => r.department.all fun c => !isUnsafe c) = true := by
      decide
    rw [List.mem_singleton.1 hl]
    intro c hc
    simpa using List.all_eq_true.1 (List.all_eq_true.1 hall _ hr) c hc
  | interval hmap hcolumn hlow hhigh =>
    refine ⟨hcolumn, fun l hl => ?_, by simp [Predicate.between]⟩
    simp only [Predicate.between, Operand.literals, List.mem_cons, List.not_mem_nil, or_false] at hl
    rcases hl with rfl | rfl <;> trivial
  | amount hmap hcolumn hr hv =>
    have hrule : (comparisonRules.all fun r => r.operator != .between) = true := by decide
    have hop := List.all_eq_true.1 hrule _ hr
    refine ⟨hcolumn, fun l hl => ?_, ?_⟩
    · rw [List.mem_singleton.1 hl]
      trivial
    · simpa [Predicate.compare] using hop
  | hired hy hcolumn =>
    refine ⟨hcolumn, fun l hl => ?_, by simp [Predicate.between]⟩
    simp only [Predicate.between, Operand.literals, List.mem_cons, List.not_mem_nil, or_false] at hl
    rcases hl with rfl | rfl <;> trivial

end SqlScribe
