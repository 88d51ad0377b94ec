import Mathlib.Data.List.Find
import SqlScribe.Proofs.Question.Commas
import SqlScribe.Proofs.Question.Mentions
import SqlScribe.Proofs.Question.PersonName

/-!
# What a name hints at

Keywords are looked for in the whole question, so also in the name of a person. The words for
columns and departments are not taken for names, but the words for orders, superlatives, comparisons
and figures are in names as well. A question for the salary of a person is read by these hints of
the name, and by nothing else of it. Main statements:

* `amountIn?_of_no_decimal`, `rowCountIn?_of_no_decimal`: without digits there are no numbers;
* `PlainName.heardIn_field`: no column and no department is heard in a name;
* `readQuestion_salaryQuestion`: the reading of the question, from the hints of the name;
* `differOnlyInName_iff`: two names are only data exactly when they hint at the same.
-/

namespace SqlScribe

open Pattern Question Text

/-! ## Questions without digits -/

section NoDigits

variable {t : Text}

theorem findAll_of_no_decimal {p : Pattern} (hp : p.asks (· == .decimal) = true)
    (h : ∀ c ∈ t, isDecimal c = false) : p.findAll t = [] := by
  refine findAll_eq_nil hp fun c hc k hk => ?_
  rw [eq_of_beq hk]
  exact h c hc

theorem amountIn?_of_no_decimal (h : ∀ c ∈ t, isDecimal c = false) : amountIn? t = none := by
  have hphrases : amountPhrases t = [] := findAll_of_no_decimal (by decide) h
  have hbetween : AmountPattern.betweenMillions.findAll t = [] :=
    findAll_of_no_decimal (by decide) h
  have hmillions : AmountPattern.millions.findAll t = [] := findAll_of_no_decimal (by decide) h
  have hbare : AmountPattern.bare.findAll t = [] := findAll_of_no_decimal (by decide) h
  rw [amountIn?, ungroupDigits_eq, ungroupFrom_of_not h, ungroupedAmount?, hphrases]
  simp [phraseInterval?, connectors, connectedPhrases?, millionsInterval?, firstPhraseValue?,
    bareNumberIn?, find?, hbetween, hmillions, hbare]

theorem rowCountIn?_of_no_decimal (h : ∀ c ∈ t, isDecimal c = false) : rowCountIn? t = none := by
  rw [rowCountIn?, find?, findAll_of_no_decimal (by decide) h]
  rfl

end NoDigits

/-- The Hangul syllables are no digits. -/
theorem isDecimal_of_hangul {c : Char} (h : CharClass.hangul.has c = true) :
    isDecimal c = false := by
  obtain ⟨hfirst, hlast⟩ := hangul_span h
  have hsyllables : Spans.has [(0xAC00, 0xD7A3)] c = true :=
    Spans.has_iff.2 ⟨_, List.mem_singleton_self _, hfirst, hlast⟩
  have hspans : decimalSpans.has c = false :=
    Spans.has_eq_false_of_apart (by decide +kernel) hsyllables
  rw [isDecimal, isDigit_eq_false (by omega), hspans, Bool.and_false, Bool.false_and, Bool.or_false]

/-! ## The question for a salary -/

/-- The question for the salary of a person. -/
def salaryQuestion (n : Text) : Text := n ++ "의 급여 정보"

/-- What stands behind the name and the particle. -/
def salaryWords : Text := " 급여 정보"

theorem salaryQuestion_eq (n : Text) : salaryQuestion n = n ++ '의' :: salaryWords := by
  have hwords : "의 급여 정보".toList = '의' :: salaryWords := by decide +kernel
  rw [salaryQuestion, hwords]

/-- A keyword that is told apart from a particle and from the ending of the plural. -/
def IsDistinct (k : Text) : Prop := k.isAllBlank = false ∧ '의' ∉ k ∧ '들' ∉ k

instance (k : Text) : Decidable (IsDistinct k) := inferInstanceAs (Decidable (_ ∧ _))

/-- The words for departments and columns. -/
def fieldKeywords : List Text :=
  departmentRules.flatMap DepartmentRule.keywords ++ columnRules.flatMap ColumnRule.keywords

/-- The keywords that change the reading of a question for a salary. -/
def hintKeywords : List Text :=
  intentRules.flatMap IntentRule.keywords ++ comparisonRules.flatMap ComparisonRule.keywords
    ++ (orderRules.flatMap OrderRule.keywords ++ superlativeKeywords)

theorem namesField_eq (t : Text) : namesField t = heardIn fieldKeywords t := rfl

/-- The keywords are distinct, and none of them is heard behind the name. -/
def Unheard (ks : List Text) : Prop := (∀ k ∈ ks, IsDistinct k) ∧ heardIn ks salaryWords = false

instance (ks : List Text) : Decidable (Unheard ks) := inferInstanceAs (Decidable (_ ∧ _))

theorem unheard_intentRules : ∀ r ∈ intentRules, Unheard r.keywords := by decide +kernel

theorem unheard_comparisonRules : ∀ r ∈ comparisonRules, Unheard r.keywords := by decide +kernel

theorem unheard_orderRules : ∀ r ∈ orderRules, Unheard r.keywords := by decide +kernel

theorem unheard_superlativeKeywords : Unheard superlativeKeywords := by decide +kernel

namespace PlainName

variable {m n : Text} {ks : List Text}

theorem ne_nil (hn : PlainName n) : n ≠ [] := by
  rintro rfl
  exact absurd hn.two_le (by decide)

theorem inSyllables (hn : PlainName n) : InSyllables n := fun c hc => Or.inl (hn.syllables c hc)

theorem not_isBlank (hn : PlainName n) {c : Char} (hc : c ∈ n) : isBlank c = false :=
  isBlank_of_hangul (hn.syllables c hc)

theorem trim_eq (hn : PlainName n) : n.trim = n :=
  trim_eq_self (fun _ hc => hn.not_isBlank (List.mem_of_mem_head? hc)) fun _ hc =>
    hn.not_isBlank (List.mem_of_getLast? hc)

theorem inSyllables_salaryQuestion (hn : PlainName n) : InSyllables (salaryQuestion n) := by
  have hrest : ∀ c ∈ "의 급여 정보".toList, CharClass.hangul.has c = true ∨ isBlank c = true := by decide
  intro c hc
  exact (List.mem_append.1 hc).elim (hn.inSyllables c) (hrest c)

theorem trim_salaryQuestion (hn : PlainName n) : (salaryQuestion n).trim = salaryQuestion n := by
  refine trim_eq_self (fun c hc => ?_) fun c hc => ?_
  · rw [salaryQuestion, List.head?_append_of_ne_nil n hn.ne_nil] at hc
    exact hn.not_isBlank (List.mem_of_mem_head? hc)
  · rw [salaryQuestion, List.getLast?_append_of_ne_nil n (by decide)] at hc
    have hlast : "의 급여 정보".toList.getLast?.all (fun c => !isBlank c) = true := by decide
    rw [hc] at hlast
    simpa using hlast

/-! ## What is heard in a name -/

theorem heardIn_singular (hks : ∀ k ∈ ks, IsDistinct k) (t : Text) :
    heardIn ks (singular t) = heardIn ks t := by
  by_cases hlast : t.getLast? = some '들'
  · obtain ⟨u, rfl⟩ : ∃ u, t = u ++ ['들'] := List.getLast?_eq_some_iff.1 hlast
    have hsingular : singular (u ++ ['들']) = u := by
      rw [singular, if_pos (by simp [endsWith]), List.dropLast_concat]
    have hnil : heardIn ks [] = false := by
      rw [Bool.eq_false_iff, ne_eq, heardIn_iff]
      rintro ⟨k, hk, -, hin⟩
      obtain rfl := List.infix_nil.1 hin
      exact absurd (hks [] hk).1 (by decide)
    rw [hsingular, heardIn_append_cons fun k hk => (hks k hk).2.2, hnil, Bool.or_false]
  · rw [singular_of_getLast? hlast]

/-- No word for a department or a column is heard in a name. -/
theorem heardIn_field (hn : PlainName n) (hks : ∀ k ∈ ks, k.isAscii = false → k ∈ fieldKeywords) :
    heardIn ks n = false := by
  have hdistinct : ∀ k ∈ fieldKeywords, IsDistinct k := by decide +kernel
  have hfield : heardIn fieldKeywords n = false := by
    have hname := hn.isName
    rw [isNoName, Bool.or_eq_false_iff, namesField_eq, heardIn_singular hdistinct] at hname
    exact hname.2
  rw [Bool.eq_false_iff, ne_eq, heardIn_iff] at hfield ⊢
  rintro ⟨k, hk, hascii, hin⟩
  exact hfield ⟨k, hks k hk hascii, hascii, hin⟩

/-- A question for a salary mentions what is heard in the name, and what is heard behind it. -/
theorem mentionsAny_salaryQuestion (hn : PlainName n) (hks : ∀ k ∈ ks, IsDistinct k) :
    (ofText (salaryQuestion n)).mentionsAny ks = (heardIn ks n || heardIn ks salaryWords) := by
  have hblank : ∀ k ∈ ks, k.isAllBlank = false := fun k hk => (hks k hk).1
  rw [mentionsAny_of_inSyllables hn.inSyllables_salaryQuestion hn.trim_salaryQuestion hblank,
    salaryQuestion_eq, heardIn_append_cons fun k hk => (hks k hk).2.1]

/-- Keywords that are not heard behind the name are mentioned if the name alone mentions them. -/
theorem mentionsAny_eq (hn : PlainName n) (hks : Unheard ks) :
    (ofText (salaryQuestion n)).mentionsAny ks = (ofText n).mentionsAny ks := by
  obtain ⟨hdistinct, hrest⟩ := hks
  rw [hn.mentionsAny_salaryQuestion hdistinct, hrest, Bool.or_false,
    mentionsAny_of_inSyllables hn.inSyllables hn.trim_eq fun k hk => (hdistinct k hk).1]

/-- Words for departments and columns are mentioned if they are heard behind the name. -/
theorem mentionsAny_field (hn : PlainName n) (hks : ∀ k ∈ ks, IsDistinct k)
    (hfield : ∀ k ∈ ks, k.isAscii = false → k ∈ fieldKeywords) :
    (ofText (salaryQuestion n)).mentionsAny ks = heardIn ks salaryWords := by
  rw [hn.mentionsAny_salaryQuestion hks, hn.heardIn_field hfield, Bool.false_or]

/-! ## What the question is read as -/

/-- The reading of a whole table is that of the name alone, if none of its keywords is heard behind
the name. -/
theorem find?_mentions {α : Type} {rules : List α} {keywords : α → List Text} (hn : PlainName n)
    (hrules : ∀ r ∈ rules, Unheard (keywords r)) :
    (rules.find? fun r => (ofText (salaryQuestion n)).mentionsAny (keywords r)) =
      rules.find? fun r => (ofText n).mentionsAny (keywords r) :=
  List.find?_congr fun r hr => hn.mentionsAny_eq (hrules r hr)

theorem intent_salaryQuestion (hn : PlainName n) :
    (ofText (salaryQuestion n)).intent = (ofText n).intent := by
  rw [Question.intent, Question.intent, hn.find?_mentions unheard_intentRules]

theorem comparison?_salaryQuestion (hn : PlainName n) :
    (ofText (salaryQuestion n)).comparison? = (ofText n).comparison? :=
  hn.find?_mentions unheard_comparisonRules

theorem order?_salaryQuestion (hn : PlainName n) (t : Table) :
    (ofText (salaryQuestion n)).order? t = (ofText n).order? t := by
  rw [order?, order?, hn.find?_mentions unheard_orderRules]

/-- No other table than the one of employees is named. -/
theorem tableRule?_salaryQuestion (hn : PlainName n) :
    (ofText (salaryQuestion n)).tableRule? = none := by
  have hprojects : heardIn ["프로젝트", "project", "projects"] n = false := by
    rw [Bool.eq_false_iff, ne_eq, heardIn_iff]
    rintro ⟨k, hk, hascii, hin⟩
    have hwords : ∀ k ∈ (["프로젝트", "project", "projects"] : List Text), k.isAscii = false →
        k = "프로젝트" := by decide
    obtain rfl := hwords k hk hascii
    -- a name has no room for more than the word
    have hname : "프로젝트".toList = n := hin.eq_of_length_le hn.le_four
    have hno : isNoName "프로젝트" = true := by decide +kernel
    rw [hname, hn.isName] at hno
    exact Bool.false_ne_true hno
  have hdepartments : heardIn ["부서", "department", "departments"] n = false :=
    hn.heardIn_field (by decide +kernel)
  have hrest : ∀ r ∈ tableRules, Unheard r.anyOf := by decide +kernel
  rw [tableRule?, List.find?_eq_none]
  intro r hr
  have hheard : heardIn r.anyOf n = false := by
    simp only [tableRules, List.mem_cons, List.not_mem_nil, or_false] at hr
    rcases hr with rfl | rfl
    · exact hprojects
    · exact hdepartments
  rw [hn.mentionsAny_salaryQuestion (hrest r hr).1, hheard, (hrest r hr).2]
  exact Bool.false_ne_true

end PlainName

/-- The employees of the built-in schema. -/
def employees : Table := Schema.humanResources.tables.head (by decide)

namespace PlainName

variable {m n : Text}

theorem mentionedColumns_salaryQuestion (hn : PlainName n) :
    (ofText (salaryQuestion n)).mentionedColumns employees = (["salary"] : List Text) := by
  have hdistinct : ∀ r ∈ columnRules, (∀ k ∈ r.keywords, IsDistinct k) ∧
      ∀ k ∈ r.keywords, k.isAscii = false → k ∈ fieldKeywords := by decide +kernel
  have hfilter : (columnRules.filter fun r => employees.hasColumn r.column
      && (ofText (salaryQuestion n)).mentionsAny r.keywords) =
      columnRules.filter fun r => employees.hasColumn r.column &&
        heardIn r.keywords salaryWords := by
    refine List.filter_congr fun r hr => ?_
    rw [hn.mentionsAny_field (hdistinct r hr).1 (hdistinct r hr).2]
  rw [mentionedColumns, hfilter]
  decide +kernel

theorem asked_salaryQuestion (hn : PlainName n) :
    (ofText (salaryQuestion n)).asked = salaryQuestion n :=
  hn.trim_salaryQuestion

theorem personNameIn?_salaryQuestion (hn : PlainName n) :
    personNameIn? (salaryQuestion n) = some n := by
  have hsplit : salaryQuestion n = (n ++ "의" ++ " " ++ "급여") ++ " 정보" := by
    have hwords : "의 급여 정보".toList = "의" ++ (" " ++ ("급여" ++ " 정보")) := by decide +kernel
    simp only [salaryQuestion, hwords, List.append_assoc]
  rw [hsplit]
  exact hn.personNameIn?_append (by decide) (by decide) (by decide) (by decide) (by decide)
    (by decide)

theorem no_decimal_salaryQuestion (hn : PlainName n) :
    ∀ c ∈ salaryQuestion n, isDecimal c = false := by
  have hrest : ∀ c ∈ "의 급여 정보".toList, isDecimal c = false := by decide +kernel
  intro c hc
  exact (List.mem_append.1 hc).elim (fun hc => isDecimal_of_hangul (hn.syllables c hc)) (hrest c)

/-- The only condition is the one on the name. -/
theorem conditions_salaryQuestion (hn : PlainName n) :
    (ofText (salaryQuestion n)).conditions employees = [.compare "name" .eq (.text n)] := by
  have hname : (ofText (salaryQuestion n)).nameCondition? employees
      = some (.compare "name" .eq (.text n)) := by
    rw [nameCondition?, hn.asked_salaryQuestion, hn.personNameIn?_salaryQuestion]
    rfl
  have hdepartment : ∀ ps, (ofText (salaryQuestion n)).departmentCondition? employees ps
      = none := by
    have hunheard : ∀ r ∈ departmentRules, Unheard r.keywords ∧
        ∀ k ∈ r.keywords, k.isAscii = false → k ∈ fieldKeywords := by decide +kernel
    have hnone : (departmentRules.find? fun r => (ofText (salaryQuestion n)).mentionsAny r.keywords)
        = none := by
      rw [List.find?_eq_none]
      intro r hr
      obtain ⟨⟨hkeywords, hrest⟩, hfield⟩ := hunheard r hr
      rw [hn.mentionsAny_field hkeywords hfield, hrest]
      exact Bool.false_ne_true
    intro ps
    rw [departmentCondition?, hnone]
  have hamount : (ofText (salaryQuestion n)).amountCondition? employees = none := by
    rw [amountCondition?, hn.asked_salaryQuestion,
      amountIn?_of_no_decimal hn.no_decimal_salaryQuestion]
  have hhire : (ofText (salaryQuestion n)).hireCondition? employees = none := by
    have hfield : ∀ k ∈ hireKeywords, k.isAscii = false → k ∈ fieldKeywords := by decide +kernel
    rw [hireCondition?, hn.mentionsAny_field (by decide) hfield]
    rfl
  rw [conditions, hname, hdepartment, hamount, hhire]
  rfl

/-! ## The whole reading -/

end PlainName

/-- What the words in a name ask for. -/
@[ext]
structure NameHints where
  intent : Intent
  isCompared : Bool
  order : Option Order
  isSuperlative : Bool
  isGrouped : Bool
deriving DecidableEq

namespace NameHints

/-- A name that hints at nothing. -/
def plain : NameHints := ⟨.select, false, none, false, false⟩

/-- The hints of a name: what it would ask for on its own. Orders and superlatives count for rows,
and groups for figures. -/
def ofName (n : Text) : NameHints :=
  let q := ofText n
  { intent := q.intent
    isCompared := q.comparison?.isSome
    order := if q.intent.isSelect then q.order? employees else none
    isSuperlative := q.intent.isSelect && q.mentionsAny superlativeKeywords
    isGrouped := q.intent.isAggregate && q.mentionsAny groupingKeywords }

/-- The number of rows. -/
def limit (h : NameHints) : Option Nat :=
  if h.isSuperlative then some 1 else if h.order.isSome then some orderedLimit else none

/-- The request for the salary of a person whose name has the hints. -/
def request (h : NameHints) (n : Text) : Request where
  table := defaultTable
  columns := ["name", "department", "salary"]
  conditions := [.compare "name" .eq (.text n)]
  order := h.order
  limit := h.limit
  groupBy := if h.isGrouped then some "department" else none
  metric := if h.intent.isAggregate then some "salary" else none

/-- The reading of the question for the salary of a person whose name has the hints. -/
def reading (h : NameHints) (n : Text) : Reading :=
  ⟨h.intent, h.request n, if h.isCompared then [.amountAmbiguous] else []⟩

end NameHints

namespace PlainName

variable {m n : Text}

theorem limit?_salaryQuestion (hn : PlainName n) (ordered : Bool) :
    (ofText (salaryQuestion n)).limit? ordered
      = if (ofText n).mentionsAny superlativeKeywords then some 1
      else if ordered then some orderedLimit else none := by
  rw [limit?, hn.asked_salaryQuestion, rowCountIn?_of_no_decimal hn.no_decimal_salaryQuestion,
    hn.mentionsAny_eq unheard_superlativeKeywords]

theorem requestFor_salaryQuestion (hn : PlainName n) :
    (ofText (salaryQuestion n)).requestFor employees defaultTable (ofText n).intent
      = (NameHints.ofName n).request n := by
  have hcolumns : projection employees ["salary"]
      = (["name", "department", "salary"] : List Text) := by
    decide
  have hmetric :
      (metricColumn? defaultTable).filter employees.hasColumn = some "salary".toList := by decide
  have hgroups : employees.hasColumn "department" = true := by decide
  have hgrouping : (ofText (salaryQuestion n)).mentionsAny groupingKeywords =
      (ofText n).mentionsAny groupingKeywords := hn.mentionsAny_eq (by decide +kernel)
  rw [requestFor, hn.mentionedColumns_salaryQuestion, hn.conditions_salaryQuestion, hcolumns,
    hn.order?_salaryQuestion, hn.limit?_salaryQuestion, hgrouping, hmetric, hgroups, Bool.and_true]
  cases hintent : (ofText n).intent <;>
    simp only [NameHints.request, NameHints.ofName, NameHints.limit, hintent, Intent.isSelect,
      Intent.isAggregate, Bool.true_and, Bool.false_and, Bool.false_eq_true, if_true, if_false,
      Option.isSome_none]

/-- **What a question for a salary is read as.** Of the name only its hints count, and the condition
on it. -/
theorem readQuestion_salaryQuestion (hn : PlainName n) :
    readQuestion (salaryQuestion n) .humanResources = (NameHints.ofName n).reading n := by
  have htable : Schema.humanResources.table? defaultTable = some employees := by decide +kernel
  have hdegradations : (ofText (salaryQuestion n)).amountDegradations =
      if (ofText n).comparison?.isSome then [.amountAmbiguous] else [] := by
    rw [amountDegradations, hn.asked_salaryQuestion,
      amountIn?_of_no_decimal hn.no_decimal_salaryQuestion, hn.comparison?_salaryQuestion]
    rfl
  have hunderstood : (!((NameHints.ofName n).request n).conditions.isEmpty) = true := rfl
  rw [readQuestion, Question.read, hn.tableRule?_salaryQuestion]
  simp only [Option.map_none, Option.getD_none, htable, hn.intent_salaryQuestion,
    hn.requestFor_salaryQuestion, hdegradations, hunderstood, Bool.or_true, Bool.true_or,
    Bool.not_true, Bool.and_false, Bool.false_eq_true, if_false]
  rfl

/-! ## Names that hint at nothing -/

theorem mentionsAny_iff (hn : PlainName n) {ks : List Text} (hks : ∀ k ∈ ks, IsDistinct k) :
    (ofText n).mentionsAny ks = true ↔ ∃ k ∈ ks, k <:+: n := by
  rw [mentionsAny_of_inSyllables hn.inSyllables hn.trim_eq fun k hk => (hks k hk).1, heardIn_iff]
  refine exists_congr fun k => and_congr_right fun hk => and_iff_right_of_imp ?_
  exact hn.inSyllables.isAscii_eq_false (hks k hk).1

/-- No rule of a table applies to a name exactly when none of the keywords stands in it. -/
theorem find?_eq_none_iff {α : Type} {rules : List α} {keywords : α → List Text} (hn : PlainName n)
    (hrules : ∀ r ∈ rules, Unheard (keywords r)) :
    (rules.find? fun r => (ofText n).mentionsAny (keywords r)) = none ↔
      ∀ k ∈ rules.flatMap keywords, ¬ k <:+: n := by
  rw [List.find?_eq_none]
  constructor
  · intro h k hk hin
    obtain ⟨r, hr, hkr⟩ := List.mem_flatMap.1 hk
    exact h r hr ((hn.mentionsAny_iff (hrules r hr).1).2 ⟨k, hkr, hin⟩)
  · intro h r hr hmentions
    obtain ⟨k, hk, hin⟩ := (hn.mentionsAny_iff (hrules r hr).1).1 hmentions
    exact h k (List.mem_flatMap.2 ⟨r, hr, hk⟩) hin

theorem intent_eq_select_iff (hn : PlainName n) :
    (ofText n).intent = .select ↔ ∀ k ∈ intentRules.flatMap IntentRule.keywords, ¬ k <:+: n := by
  have hother : ∀ r ∈ intentRules, r.intent ≠ .select := by decide
  rw [← hn.find?_eq_none_iff unheard_intentRules, Question.intent]
  split
  · next r hr => simp [hr, hother r (List.mem_of_find?_eq_some hr)]
  · next hr => simp [hr]

theorem order?_eq_none_iff (hn : PlainName n) :
    (ofText n).order? employees = none ↔
      ∀ k ∈ orderRules.flatMap OrderRule.keywords, ¬ k <:+: n := by
  rw [← hn.find?_eq_none_iff unheard_orderRules, order?]
  split
  · next hr => simp [hr]
  · next r hr =>
    -- the employees have the column of every rule
    have hrule := List.mem_of_find?_eq_some hr
    rw [hr]
    refine iff_of_false ?_ (by simp)
    simp only [orderRules, List.mem_cons, List.not_mem_nil, or_false] at hrule
    rcases hrule with rfl | rfl | rfl <;> decide

theorem comparison?_eq_none_iff (hn : PlainName n) :
    (ofText n).comparison? = none ↔
      ∀ k ∈ comparisonRules.flatMap ComparisonRule.keywords, ¬ k <:+: n :=
  hn.find?_eq_none_iff unheard_comparisonRules

theorem ofName_eq_plain_iff (hn : PlainName n) :
    NameHints.ofName n = .plain ↔ ∀ k ∈ hintKeywords, ¬ k <:+: n := by
  have hsuperlative : (ofText n).mentionsAny superlativeKeywords = false ↔
      ∀ k ∈ superlativeKeywords, ¬ k <:+: n := by
    rw [Bool.eq_false_iff, ne_eq, hn.mentionsAny_iff unheard_superlativeKeywords.1]
    simp
  rw [hintKeywords]
  simp only [List.forall_mem_append]
  rw [← hn.intent_eq_select_iff, ← hn.comparison?_eq_none_iff, ← hn.order?_eq_none_iff,
    ← hsuperlative, NameHints.ofName, NameHints.plain, NameHints.mk.injEq]
  constructor
  · rintro ⟨hintent, hcompared, horder, hsuper, -⟩
    rw [hintent] at horder hsuper
    refine ⟨⟨hintent, by simpa using hcompared⟩, horder, hsuper⟩
  · rintro ⟨⟨hintent, hcompared⟩, horder, hsuper⟩
    rw [hintent, hcompared, horder, hsuper]
    exact ⟨rfl, rfl, rfl, rfl, rfl⟩

end PlainName

/-! ## Only data -/

/-- The readings of two questions are the same but for the names that are asked about. -/
structure Reading.DifferOnlyInName (m n : Text) (r r' : Reading) : Prop where
  intent : r.intent = r'.intent
  table : r.request.table = r'.request.table
  columns : r.request.columns = r'.request.columns
  conditions : ∃ before after,
    r.request.conditions = before ++ .compare "name" .eq (.text m) :: after ∧
      r'.request.conditions = before ++ .compare "name" .eq (.text n) :: after
  order : r.request.order = r'.request.order
  limit : r.request.limit = r'.request.limit
  groupBy : r.request.groupBy = r'.request.groupBy
  metric : r.request.metric = r'.request.metric
  degradations : r.degradations = r'.degradations

/-- No hint goes unnoticed. -/
theorem NameHints.differOnlyInName_reading_iff {h h' : NameHints} {m n : Text} :
    Reading.DifferOnlyInName m n (h.reading m) (h'.reading n) ↔ h = h' := by
  constructor
  · intro hd
    have hintent : h.intent = h'.intent := hd.intent
    have horder : h.order = h'.order := hd.order
    have hlimit : h.limit = h'.limit := hd.limit
    have hgroup : (if h.isGrouped then some "department".toList else none)
        = if h'.isGrouped then some "department".toList else none := hd.groupBy
    have hdegradations : (if h.isCompared then [Degradation.amountAmbiguous] else [])
        = if h'.isCompared then [Degradation.amountAmbiguous] else [] := hd.degradations
    have hsuperlative : h.isSuperlative = h'.isSuperlative := by
      -- one row is asked for by superlatives only
      have hone : ∀ h : NameHints, h.isSuperlative = true ↔ h.limit = some 1 := by
        intro h
        rw [limit]
        cases h.isSuperlative <;> cases h.order <;> simp [orderedLimit]
      rw [Bool.eq_iff_iff, hone, hone, hlimit]
    have hgrouped : h.isGrouped = h'.isGrouped := by
      revert hgroup
      cases h.isGrouped <;> cases h'.isGrouped <;> simp
    have hcompared : h.isCompared = h'.isCompared := by
      revert hdegradations
      cases h.isCompared <;> cases h'.isCompared <;> simp
    exact NameHints.ext hintent hcompared horder hsuperlative hgrouped
  · rintro rfl
    exact ⟨rfl, rfl, rfl, ⟨[], [], rfl, rfl⟩, rfl, rfl, rfl, rfl, rfl⟩

/-- **When a name is only data.** Two questions for salaries, with names in which no keyword for a
figure, a comparison, an order or a superlative stands, are read the same but for the names; and so
are two questions exactly when the names hint at the same. -/
theorem differOnlyInName_iff {m n : Text} (hm : PlainName m) (hn : PlainName n) :
    ((∀ k ∈ hintKeywords, ¬ k <:+: m ∧ ¬ k <:+: n) →
      Reading.DifferOnlyInName m n (readQuestion (salaryQuestion m) .humanResources)
        (readQuestion (salaryQuestion n) .humanResources)) ∧
    (Reading.DifferOnlyInName m n (readQuestion (salaryQuestion m) .humanResources)
        (readQuestion (salaryQuestion n) .humanResources) ↔
        NameHints.ofName m = NameHints.ofName n) ∧
    (NameHints.ofName n = .plain ↔ ∀ k ∈ hintKeywords, ¬ k <:+: n) := by
  rw [hm.readQuestion_salaryQuestion, hn.readQuestion_salaryQuestion,
    NameHints.differOnlyInName_reading_iff]
  refine ⟨fun h => ?_, Iff.rfl, hn.ofName_eq_plain_iff⟩
  rw [hm.ofName_eq_plain_iff.2 fun k hk => (h k hk).1,
    hn.ofName_eq_plain_iff.2 fun k hk => (h k hk).2]

theorem differOnlyInName_cheolsu : (PlainName "김철수" ∧ PlainName "이영희") ∧
    (∀ k ∈ hintKeywords, ¬ k <:+: "김철수".toList ∧ ¬ k <:+: "이영희".toList) ∧
    Reading.DifferOnlyInName "김철수" "이영희" (readQuestion (salaryQuestion "김철수") .humanResources)
      (readQuestion (salaryQuestion "이영희") .humanResources) := by
  have hn : PlainName "이영희" := ⟨by decide, by decide, by decide, by decide +kernel, by decide⟩
  have hnone : ∀ k ∈ hintKeywords, ¬ k <:+: "김철수".toList ∧ ¬ k <:+: "이영희".toList := by
    decide +kernel
  exact ⟨⟨PlainName.plain_cheolsu, hn⟩, hnone,
    (differOnlyInName_iff PlainName.plain_cheolsu hn).1 hnone⟩

/-- A name with a comparison in it is not only data. -/
theorem not_differOnlyInName : ¬ ∀ m n, PlainName m → PlainName n →
    Reading.DifferOnlyInName m n (readQuestion (salaryQuestion m) .humanResources)
      (readQuestion (salaryQuestion n) .humanResources) := by
  intro h
  have hn : PlainName "이상민" := ⟨by decide, by decide, by decide, by decide +kernel, by decide⟩
  have hd := (h _ _ PlainName.plain_cheolsu hn).degradations
  rw [PlainName.plain_cheolsu.readQuestion_salaryQuestion, hn.readQuestion_salaryQuestion] at hd
  exact absurd hd (by decide +kernel)

end SqlScribe
