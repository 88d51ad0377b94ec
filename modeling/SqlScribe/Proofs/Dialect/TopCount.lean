import SqlScribe.Proofs.Dialect.SingleLimit
import SqlScribe.Proofs.Pattern.WordOf

/-!
# The count in front of the columns

A count is `TOP` and a number in front of the columns, with blanks between and behind them, and at
most a `DISTINCT` in front. The last stage of the rules for Sybase takes it out and writes it as a
`LIMIT` where there is none; without a count it does nothing. Main statements:

* `Sybase.Counted.matchAt?_text`, `Sybase.exists_counted`: the pattern finds a count where there is
  one and nowhere else;
* `Outline.editClauses_eq_map`: a clause that is changed is the only one of its kind;
* `Sybase.top_becomes_limit`: what the last stage does to every outline that reaches it.
-/

namespace SqlScribe

open Pattern Outline

namespace Pattern

variable {b : Option Char} {u r : Text} {cs : List Capture} {k : CharClass} {K : Continuation}

/-- A run that may not be empty is taken whole. -/
theorem first_run1_append (hne : u ≠ []) (hu : ∀ y ∈ u, k.has y = true)
    (hr : ∀ y, r.head? = some y → k.has y = false) :
    first (run1 k) ⟨b, u ++ r, cs⟩ K = K ⟨u.getLast?.or b, r, cs⟩ := by
  obtain ⟨x, u, rfl⟩ := List.exists_cons_of_ne_nil hne
  obtain ⟨hx, hu⟩ := List.forall_mem_cons.1 hu
  rw [run1, first_append, List.cons_append, first_one_of_has hx, Text.getLast?_cons_or]
  exact first_run_append hu hr

theorem first_blanks1_append (hu : IsGap u) (hr : ∀ y, r.head? = some y → isBlank y = false) :
    first blanks1 ⟨b, u ++ r, cs⟩ K = K ⟨u.getLast?.or b, r, cs⟩ :=
  first_run1_append hu.1 hu.2 hr

end Pattern

namespace Outline

variable {cs : List Clause}

/-- In clauses that stand in order, the one that is changed is the only one of its kind. -/
theorem editClauses_eq_map (k : ClauseKind) (f : Text → Text) (h : Ordered cs) :
    editClauses k f cs = cs.map fun c => if c.kind = k then { c with body := f c.body } else c := by
  induction cs with
  | nil => rfl
  | cons c cs ih =>
    obtain ⟨hlater, hrest⟩ := List.pairwise_cons.1 h
    rw [editClauses, List.map_cons]
    by_cases hc : c.kind = k
    · subst hc
      have hothers :
          cs.map (fun d => if d.kind = c.kind then { d with body := f d.body } else d) = cs := by
        conv_rhs => rw [← List.map_id cs]
        refine List.map_congr_left fun d hd => if_neg fun hk => ?_
        exact Nat.lt_irrefl _ (hk ▸ hlater d hd)
      rw [hothers]
      simp
    · rw [if_neg hc, if_neg (by simpa using hc), ih hrest]

end Outline

namespace Pipeline

/-- Rules on clauses change bodies only. -/
theorem kinds_runOnClauses (rules : List TextRule) (g : Progress Outline) :
    (runOnClauses rules g).state.clauses.map Clause.kind = g.state.clauses.map Clause.kind := by
  refine Progress.foldl_state
    (P := fun o => o.clauses.map Clause.kind = g.state.clauses.map Clause.kind)
    TextRule.name TextRule.changeOutline? (fun r _ o o' ho hr => ?_) rfl
  rw [← ho, TextRule.eq_of_changeOutline? hr]
  simp [TextRule.applyToOutline, Function.comp_def]

/-- In front of the last stage the clauses stand in the order of their kinds. -/
theorem ordered_beforeShape (p : Pipeline) (sql : Text) :
    Ordered (p.beforeShape sql).state.clauses := by
  refine (ordered_scan (p.runLexical sql).state).of_kinds ?_
  rw [beforeShape, kinds_runOnClauses, kinds_runOnClauses]
  rfl

end Pipeline

namespace Sybase

/-! ## Counts -/

/-- Columns with a count: the number, what stands in front of the count and what behind it. -/
structure Counted where
  /-- Nothing, or `DISTINCT` and the blanks behind it. -/
  front : Text
  /-- `TOP`, in any case. -/
  top : Text
  number : Text
  columns : Text
  /-- The blanks in front of the number. -/
  before : Text
  /-- The blanks behind the number. -/
  behind : Text
  isFront : front = [] ∨ ∃ d s, front = d ++ s ∧ SameLetters d "DISTINCT" ∧ IsGap s
  isTop : SameLetters top "TOP"
  isNumber : number ≠ [] ∧ ∀ c ∈ number, isDecimal c = true
  isGap_before : IsGap before
  isGap_behind : IsGap behind
  isColumns : ∀ c, columns.head? = some c → isBlank c = false

namespace Counted

/-- The columns as they are written with the count. -/
def text (x : Counted) : Text :=
  x.front ++ (x.top ++ (x.before ++ (x.number ++ (x.behind ++ x.columns))))

variable (x : Counted)

/-- Where the pattern is behind what stands in front of a count, it takes the count. -/
theorem first_count (b : Option Char) (cs : List Capture) : ∃ b',
    first (letters "TOP") ⟨b, x.top ++ (x.before ++ (x.number ++ (x.behind ++ x.columns))), cs⟩
      (fun d => first blanks1 d fun d => first (group 2 (run1 .decimal)) d fun d =>
        first blanks1 d some)
      = some ⟨b', x.columns, ⟨2, x.number ++ (x.behind ++ x.columns),
        x.behind ++ x.columns⟩ :: cs⟩ := by
  obtain ⟨hnumber, hall⟩ := x.isNumber
  have hdigits : ∀ c ∈ x.number, CharClass.decimal.has c = true := hall
  have hbefore : ∀ y, (x.number ++ (x.behind ++ x.columns)).head? = some y → isBlank y = false := by
    intro y hy
    rw [List.head?_append_of_ne_nil _ hnumber] at hy
    exact isBlank_of_isIdentifierChar
      (isIdentifierChar_of_isDecimal (hall y (List.mem_of_mem_head? hy)))
  have hstop : ∀ y, (x.behind ++ x.columns).head? = some y → CharClass.decimal.has y = false := by
    intro y hy
    rw [List.head?_append_of_ne_nil _ x.isGap_behind.1] at hy
    have hblank := x.isGap_behind.2 y (List.mem_of_mem_head? hy)
    by_contra hne
    have hdecimal : isDecimal y = true := by simpa [CharClass.has] using hne
    rw [isBlank_of_isIdentifierChar (isIdentifierChar_of_isDecimal hdecimal)] at hblank
    exact Bool.false_ne_true hblank
  rw [first_letters x.isTop, first_blanks1_append x.isGap_before hbefore, first_group,
    first_run1_append hnumber hdigits hstop]
  exact ⟨_, first_blanks1_append x.isGap_behind x.isColumns⟩

/-- What is captured in front of a count: `DISTINCT` and the blanks behind it, if they are there. -/
def captured : List Capture :=
  if x.front = [] then [] else [⟨1, x.text,
    x.top ++ (x.before ++ (x.number ++ (x.behind ++ x.columns)))⟩]

/-- The pattern passes what stands in front of a count, if the search goes on from there. -/
theorem first_front {K : Continuation} {e : Cursor}
    (hK : K ⟨x.front.getLast?, x.top ++ (x.before ++ (x.number ++ (x.behind ++ x.columns))),
      x.captured⟩ = some e) :
    first (opt (group 1 (letters "DISTINCT" ++ blanks1))) ⟨none, x.text, []⟩ K = some e := by
  have hletters : ∀ c ∈ x.top, isWordChar c = true := x.isTop.isWordChar (by decide)
  have htop : x.top ≠ [] := x.isTop.ne_nil (by decide)
  show (first (group 1 (letters "DISTINCT" ++ blanks1)) ⟨none, x.text, []⟩ K <|>
    K ⟨none, x.text, []⟩)
    = some e
  rcases x.isFront with hnil | ⟨d, s, hfront, hd, hs⟩
  · -- a word that begins with a `T` is no `DISTINCT`
    have htext : x.text = x.top ++ (x.before ++ (x.number ++ (x.behind ++ x.columns))) := by
      rw [text, hnil, List.nil_append]
    have hnone : first (group 1 (letters "DISTINCT" ++ blanks1)) ⟨none, x.text, []⟩ K = none := by
      rw [first_group, first_append]
      refine first_letters_eq_none fun v r hv hsame => ?_
      obtain ⟨c, g, hg⟩ := List.exists_cons_of_ne_nil htop
      obtain ⟨c', v, rfl⟩ := List.exists_cons_of_ne_nil (hsame.ne_nil (by decide))
      rw [htext, hg] at hv
      obtain ⟨rfl, -⟩ := List.cons.inj hv
      have hc := (List.cons.inj (hg ▸ x.isTop)).1
      exact absurd (hc.symm.trans (List.cons.inj hsame).1) (by decide)
    rw [captured, if_pos hnil, hnil, ← htext] at hK
    rw [hnone]
    exact hK
  · have hstop : ∀ y, (x.top ++ (x.before ++ (x.number ++ (x.behind ++ x.columns)))).head?
        = some y → isBlank y = false := by
      intro y hy
      rw [List.head?_append_of_ne_nil _ htop] at hy
      by_contra hblank
      have hword := hletters y (List.mem_of_mem_head? hy)
      rw [isWordChar_of_isBlank (by simpa using hblank)] at hword
      exact Bool.false_ne_true hword
    have hne : x.front ≠ [] := by
      rw [hfront]
      exact List.append_ne_nil_of_right_ne_nil d hs.1
    have hlast : s.getLast?.or (d.getLast?.or none) = x.front.getLast? := by
      rw [hfront, List.getLast?_append, Option.or_none]
    have htext : x.text = d ++ (s ++ (x.top
        ++ (x.before ++ (x.number ++ (x.behind ++ x.columns))))) := by
      rw [text, hfront, List.append_assoc]
    rw [captured, if_neg hne, htext] at hK
    rw [first_group, first_append, htext, first_letters hd, first_blanks1_append hs hstop, hlast,
      Cursor.capture, hK]
    rfl

/-- **Where there is a count, the pattern finds it**, with what stands in front of it as the first
group and the number as the second. -/
theorem matchAt?_text : ∃ m, topCount.matchAt? none x.text = some m ∧
    m.group 1 = x.front ∧ m.group 2 = x.number ∧ m.after = x.columns := by
  have hne : x.front ++ (x.top ++ (x.before ++ (x.number ++ x.behind))) ≠ [] := by
    simp [x.isNumber.1]
  have htext : x.text = (x.front ++ (x.top ++ (x.before ++ (x.number ++ x.behind))))
      ++ x.columns := by
    simp [text]
  obtain ⟨b', hcount⟩ := x.first_count x.front.getLast? x.captured
  have hfirst : topCount.first ⟨none, x.text, []⟩ some = some ⟨b', x.columns,
      ⟨2, x.number ++ (x.behind ++ x.columns), x.behind ++ x.columns⟩ :: x.captured⟩ :=
    x.first_front hcount
  rw [htext] at hfirst
  refine ⟨_, htext ▸ matchAt?_of_first hfirst hne, ?_, ?_, rfl⟩
  · have hfront : Capture.text ⟨1, x.text,
        x.top ++ (x.before ++ (x.number ++ (x.behind ++ x.columns)))⟩
        = x.front := text_of_append rfl
    by_cases hnil : x.front = []
    · simp [Match.group, Match.group?, captured, hnil, List.lookup_cons]
    · simp [Match.group, Match.group?, captured, hnil, List.lookup_cons, hfront]
  · have hnumber : Capture.text ⟨2, x.number ++ (x.behind ++ x.columns), x.behind ++ x.columns⟩
        = x.number := text_of_append rfl
    simp [Match.group, Match.group?, hnumber]

end Counted

/-- **Where the pattern finds something, there is a count.** -/
theorem exists_counted {body : Text} {m : Match} (hm : topCount.matchAt? none body = some m) :
    ∃ x : Counted, x.text = body := by
  obtain ⟨_, _, blanks, _, htext, hgroups,
    ⟨_, _, n, _, rfl, rfl, ⟨_, _, b, _, rfl, rfl, ⟨_, _, top, _,
    rfl, rfl, ⟨_, _, u, _, rfl, rfl, ⟨rfl, rfl⟩, hopt⟩, htop⟩, hb⟩, fs, rfl, hn⟩, hblanks⟩ :=
    parses_of_matchAt? hm
  have hfront : u = [] ∨ ∃ d s, u = d ++ s ∧ SameLetters d "DISTINCT" ∧ IsGap s := by
    rcases hopt with ⟨gs, -, hgs⟩ | ⟨rfl, -⟩
    · obtain ⟨d, s, rfl, hd, hs⟩ := hgs.spells
      exact Or.inr ⟨d, s, rfl, spells_letters.1 hd, spells_blanks1_iff.1 hs⟩
    · exact Or.inl rfl
  have hnumber : n ≠ [] ∧ ∀ c ∈ n, isDecimal c = true := by
    refine ⟨ne_nil_of_takesSome rfl hn.spells, fun c hc => ?_⟩
    obtain ⟨_, r, rfl, ⟨y, rfl, hy⟩, hr⟩ := hn.spells
    exact (List.mem_cons.1 hc).elim (fun h => h ▸ hy) (hr c)
  obtain ⟨hne, hall⟩ := spells_blanks1_iff.1 hblanks.spells
  -- the blanks behind the number are all that there are
  refine ⟨⟨u, top, n, m.after.dropWhile isBlank, b, blanks ++ m.after.takeWhile isBlank, hfront,
    spells_letters.1 htop.spells, hnumber, spells_blanks1_iff.1 hb.spells,
    ⟨List.append_ne_nil_of_left_ne_nil hne _, fun c hc => ?_⟩, fun c hc => ?_⟩, ?_⟩
  · rcases List.mem_append.1 hc with hc | hc
    · exact hall c hc
    · exact List.mem_takeWhile_imp hc
  · have hnot := List.head?_dropWhile_not isBlank m.after
    rw [hc] at hnot
    simpa using hnot
  · rw [← (matchAt?_text hm).2, htext]
    simp [Counted.text]

/-! ## The last stage -/

end Sybase

/-- The outline with a count of its columns written as a limit. -/
def Outline.limitedBy (o : Outline) (x : Sybase.Counted) : Outline :=
  { o with clauses :=
      (o.clauses.map fun c =>
          if c.kind = .select then { c with body := x.front ++ x.columns } else c)
        ++ if o.has .limit then [] else [⟨.limit, x.number⟩] }

namespace Sybase

/-- A count becomes a limit, behind all clauses, or goes where there is a limit. -/
theorem topToLimit?_counted {o : Outline} (ho : Ordered o.clauses) {x : Counted}
    (hbody : o.body? .select = some x.text) : topToLimit? o = some (o.limitedBy x) := by
  obtain ⟨m, hm, hfront, hnumber, hafter⟩ := x.matchAt?_text
  have hselected : o.edit .select (fun _ => x.front ++ x.columns) = { o with
      clauses := o.clauses.map fun c =>
        if c.kind = .select then { c with body := x.front ++ x.columns } else c } := by
    rw [edit, editClauses_eq_map _ _ ho]
  simp only [topToLimit?, hbody, hm, hfront, hnumber, hafter, Option.some.injEq]
  cases hlimit : o.has .limit with
  | true => simp [limitedBy, hlimit, hselected]
  | false =>
    have hset : (o.edit .select fun _ => x.front ++ x.columns).set .limit x.number =
        { o.edit .select (fun _ => x.front ++ x.columns) with clauses :=
          (o.edit .select fun _ => x.front ++ x.columns).clauses ++ [⟨.limit, x.number⟩] } := by
      rw [Outline.set, has_edit, hlimit, if_neg Bool.false_ne_true,
        insertClause_of_last fun c _ => c.kind.rank_le_limit]
    rw [if_neg Bool.false_ne_true, hset, hselected, limitedBy, hlimit, if_neg Bool.false_ne_true]

theorem topToLimit?_eq_none {o : Outline} (h : ∀ x : Counted, o.body? .select ≠ some x.text) :
    topToLimit? o = none := by
  cases hbody : o.body? .select with
  | none => simp [topToLimit?, hbody]
  | some body =>
    cases hm : topCount.matchAt? none body with
    | none => simp [topToLimit?, hbody, hm]
    | some m =>
      obtain ⟨x, rfl⟩ := exists_counted hm
      exact absurd hbody (h x)

/-- **A count becomes a limit and nothing else does.** Where the columns have no count, or there are
none, the last stage leaves the outline as it is and is reported as missed. Where they have one, the
stage takes it out of the columns, leaves all other bodies, and puts a limit behind all clauses
unless there is one. -/
theorem top_becomes_limit (sql : Text) :
    ((∀ x : Counted, (pipeline.beforeShape sql).state.body? .select ≠ some x.text) →
      pipeline.outline sql = { pipeline.beforeShape sql with
        missed := (pipeline.beforeShape sql).missed ++ ["sybase.top_to_limit".toList] }) ∧
    ∀ x : Counted, (pipeline.beforeShape sql).state.body? .select = some x.text →
      pipeline.outline sql = { pipeline.beforeShape sql with
        state := (pipeline.beforeShape sql).state.limitedBy x
        applied := (pipeline.beforeShape sql).applied ++ ["sybase.top_to_limit".toList] } := by
  have hordered := Pipeline.ordered_beforeShape pipeline sql
  rw [Pipeline.outline]
  generalize pipeline.beforeShape sql = g at hordered ⊢
  have hrun : pipeline.runShape g = g.step "sybase.top_to_limit" topToLimit? := rfl
  rw [hrun, Progress.step]
  refine ⟨fun h => ?_, fun x hx => ?_⟩
  · rw [topToLimit?_eq_none h]
  · rw [topToLimit?_counted hordered hx]

/-- `DISTINCT` and a count of five in front of a name. -/
def Counted.distinctFive : Counted where
  front := "DISTINCT "
  top := "top"
  number := "5"
  columns := "name"
  before := " "
  behind := "  "
  isFront := Or.inr ⟨"DISTINCT", " ", by decide, by decide, by decide⟩
  isTop := by decide
  isNumber := by decide
  isGap_before := by decide
  isGap_behind := by decide
  isColumns := fun c hc => Option.some.inj hc ▸ (by decide)

/-- Five distinct names are selected with a limit, and names without a count as they were. -/
theorem top_becomes_limit_distinct :
    (pipeline.outline "SELECT DISTINCT top 5  name FROM employees").state.clauses =
      [⟨.select, "DISTINCT name"⟩, ⟨.from, "employees"⟩, ⟨.limit, "5"⟩] ∧
    (pipeline.outline "SELECT name FROM employees").missed =
      (pipeline.beforeShape "SELECT name FROM employees").missed
        ++ ["sybase.top_to_limit".toList] := by
  obtain ⟨hcounted, hlimited, hbody⟩ :
      (pipeline.beforeShape "SELECT DISTINCT top 5  name FROM employees").state.body? .select
        = some Counted.distinctFive.text ∧
      ((pipeline.beforeShape "SELECT DISTINCT top 5  name FROM employees").state.limitedBy
        .distinctFive).clauses = [⟨.select, "DISTINCT name"⟩, ⟨.from, "employees"⟩, ⟨.limit, "5"⟩] ∧
      (pipeline.beforeShape "SELECT name FROM employees").state.body? .select = some "name" := by
    decide +kernel
  constructor
  · rw [(top_becomes_limit _).2 .distinctFive hcounted]
    exact hlimited
  · rw [(top_becomes_limit _).1 fun x hx => ?_]
    obtain ⟨m, hm, -⟩ := x.matchAt?_text
    have hnone : topCount.matchAt? none "name" = none := by decide
    rw [← Option.some.inj (hbody.symm.trans hx), hnone] at hm
    exact absurd hm.symm (Option.some_ne_none m)

end Sybase

end SqlScribe
