import SqlScribe.Proofs.Clause.Standing
import SqlScribe.Proofs.Dialect.Wording

/-!
# A single limit

How often the word `LIMIT` stands at the top level of what the rules for Sybase return. A rule on
clauses adds none to a clause in which it is mild, and a count becomes one more, unless the scanner
has seen a `LIMIT`. Main statements:

* `Pipeline.counts_runOnClauses`: a stage of rules on clauses;
* `Sybase.census_topToLimit?`: the count that becomes a limit;
* `Sybase.census_apply_le`: the whole pipeline;
* `Sybase.single_limit`: a `LIMIT` that the scanner sees stays the only one;
* `Sybase.not_single_limit`: one that it does not see gets a second one.
-/

namespace SqlScribe

open Outline Pattern Text

variable {w : Text} {N : Nat}

/-! ## Stages of rules -/

namespace Pipeline

/-- The bodies that rules come to when they are run one behind the other, each with its rule. -/
def bodies : List TextRule → Outline → List (TextRule × Text)
  | [], _ => []
  | r :: rules, o => o.clauses.map (fun c => (r, c.body)) ++ bodies rules (r.applyToOutline o)

/-- **A stage of rules** that add no word to bodies that are good for them. -/
theorem counts_runOnClauses {rules : List TextRule} (Good : TextRule → Text → Prop)
    (hrules : ∀ r ∈ rules, ∀ c : Clause, Good r c.body → Spares w c ⟨c.kind, r.applyTo c.body⟩)
    {g : Progress Outline} (hgood : ∀ x ∈ bodies rules g.state, Good x.1 x.2)
    (hg : Counts w N g.state.clauses) : Counts w N (runOnClauses rules g).state.clauses := by
  rw [runOnClauses_state]
  generalize g.state = o at hgood hg
  induction rules generalizing o with
  | nil => exact hg
  | cons r rules ih =>
    obtain ⟨hr, hrules⟩ := List.forall_mem_cons.1 hrules
    rw [bodies, List.forall_mem_append] at hgood
    refine ih (fun r hr => hrules r hr) _ hgood.2 (hg.of_spares ?_)
    refine List.forall₂_map_right_iff.2 (List.forall₂_same.2 fun c hc => hr c ?_)
    exact hgood.1 (r, c.body) (List.mem_map_of_mem (f := fun c => (r, c.body)) hc)

/-- Rules on clauses leave the kinds of clauses. -/
theorem has_runOnClauses (rules : List TextRule) (g : Progress Outline) (k : ClauseKind) :
    (runOnClauses rules g).state.has k = g.state.has k := by
  refine Progress.foldl_state (P := fun o => o.has k = g.state.has k) TextRule.name
    TextRule.changeOutline? (fun r _ o o' ho hr => ?_) rfl
  rw [← ho, TextRule.eq_of_changeOutline? hr, Bool.eq_iff_iff, has_iff, has_iff]
  simp [TextRule.applyToOutline, Function.comp_def]

theorem apply_text (p : Pipeline) (sql : Text) :
    (p.apply sql).text = (p.runShape (p.beforeShape sql)).state.render := rfl

theorem apply_applied (p : Pipeline) (sql : Text) :
    (p.apply sql).applied = (p.runShape (p.beforeShape sql)).applied := rfl

end Pipeline

/-! ## The count -/

namespace Sybase

theorem toUpper_not_mem_limit {c : Char} (h : isDecimal c = true) : c.toUpper ∉ limitWord := by
  intro hc
  have hall : ∀ c ∈ limitWord, c.isUpper = true := by decide
  exact absurd (isAlpha_of_isDecimal h) (by simp [isAlpha_of_isUpper_toUpper (hall _ hc)])

/-- What stands in front of a count is a beginning of the columns. -/
theorem exists_behind_group {body : Text} {m : Match} (hm : topCount.matchAt? none body = some m) :
    ∃ rest, m.text = m.group 1 ++ rest := by
  obtain ⟨_, _, blanks, _, htext, hgroups,
    ⟨_, _, d, _, rfl, rfl, ⟨_, _, b, _, rfl, rfl, ⟨_, _, top, _,
    rfl, rfl, ⟨_, _, u, _, rfl, rfl, ⟨rfl, rfl⟩, hopt⟩, htop⟩, hb⟩, fs, rfl, hd⟩, hblanks⟩ :=
    parses_of_matchAt? hm
  obtain rfl := hblanks.eq_nil rfl
  obtain rfl := hd.eq_nil rfl
  obtain rfl := hb.eq_nil rfl
  obtain rfl := htop.eq_nil rfl
  refine ⟨top ++ (b ++ (d ++ blanks)), ?_⟩
  rcases hopt with ⟨gs, rfl, hgs⟩ | ⟨rfl, rfl⟩
  · obtain rfl := hgs.eq_nil rfl
    have hgroup : m.group 1 = u := by rw [Match.group, Match.group?, hgroups]; rfl
    rw [htext, hgroup]
    simp
  · have hgroup : m.group 1 = [] := by rw [Match.group, Match.group?, hgroups]; rfl
    rw [htext, hgroup]
    simp

/-- Without the count the columns have the word as often, and they are read over alike. -/
theorem census_uncounted {body : Text} {m : Match} (hw : w ≠ [])
    (hm : topCount.matchAt? none body = some m) :
    census w (m.group 1 ++ m.after) ≤ census w body ∧
      nestingAfter .top (m.group 1 ++ m.after) = nestingAfter .top body := by
  have hof := isOf_of_matchAt? hm
  obtain ⟨hlast, hgroup⟩ := last_blank_of_topCount hm
  obtain ⟨rest, hrest⟩ := exists_behind_group hm
  have hidle : ∀ c ∈ m.text, isIdle c = true := idle_of_spells (by decide +kernel) hof.spells
  have htop : nestingAfter .top m.text = .top := nestingAfter_of_idle isClosing_none hidle
  have hgrouptop : nestingAfter .top (m.group 1) = .top :=
    nestingAfter_of_idle isClosing_none fun c hc => hidle c (hrest ▸ List.mem_append_left rest hc)
  have hsign : ∀ {t : Text}, (∀ c, t.getLast? = some c → isBlank c = true) →
      ∀ c, t.getLast? = some c → isIdentifierChar c = false := fun h c hc =>
    isIdentifierChar_of_isBlank (h c hc)
  rw [← hof.text_append]
  constructor
  · have htext : census w (m.group 1) ≤ census w m.text := by
      rw [hrest, census_append hw hgrouptop (hsign hgroup)]
      exact Nat.le_add_right _ _
    rw [census_append hw hgrouptop (hsign hgroup), census_append hw htop (hsign hlast)]
    exact Nat.add_le_add_right htext _
  · rw [nestingAfter_append, hgrouptop, nestingAfter_append, htop]

/-- **A count that becomes a limit** is one more `LIMIT`, unless there is one already. -/
theorem census_topToLimit? {o o' : Outline} (h : topToLimit? o = some o')
    (hc : Counts limitWord N o.clauses) :
    census limitWord o'.render ≤ if o.has .limit then N else N + 1 := by
  have hw : limitWord ≠ [] := by decide
  unfold topToLimit? at h
  split at h
  · exact absurd h (by simp)
  · next body hbody =>
    split at h
    · exact absurd h (by simp)
    · next m hm =>
      obtain ⟨hcensus, hnesting⟩ := census_uncounted hw hm
      have hselected : Counts limitWord N (o.edit .select fun _ => m.group 1 ++ m.after).clauses :=
        hc.of_spares (forall₂_editClauses hbody hcensus hnesting)
      obtain rfl := Option.some.inj h
      split
      · exact hselected.census_render hw
      · next hlimit =>
        obtain ⟨hne, hdigits⟩ := digits_of_topCount hm
        obtain ⟨c, hc⟩ := List.exists_mem_of_ne_nil _ hne
        have hquiet : Quiet limitWord (m.group 2) :=
          quiet_of_chars (fun c hc => isIdentifierChar_of_isDecimal (hdigits c hc))
            ⟨c, hc, toUpper_not_mem_limit (hdigits c hc)⟩
        refine hselected.census_render_limit hw hquiet ?_
        rw [Outline.set, has_edit, if_neg hlimit]
        exact insertClause_of_last fun c _ => c.kind.rank_le_limit

/-! ## The whole pipeline -/

/-- In front of the count the clauses have `LIMIT` no more often than the text behind the comments,
where every rule for functions is mild in the bodies it comes to. -/
theorem counts_beforeShape {sql : Text}
    (hmild : ∀ x ∈ Pipeline.bodies pipeline.functions (Pipeline.runOnClauses pipeline.types
      (Pipeline.outlined (pipeline.runLexical sql))).state, MildIn x.1 x.2) :
    Counts limitWord (census limitWord (pipeline.runLexical sql).state)
      (pipeline.beforeShape sql).state.clauses := by
  obtain ⟨hsum, hclosed⟩ := census_scan (w := limitWord) (by decide) (pipeline.runLexical sql).state
  have hscan : Counts limitWord (census limitWord (pipeline.runLexical sql).state)
      (Pipeline.outlined (pipeline.runLexical sql)).state.clauses := ⟨le_of_eq hsum, hclosed⟩
  have htyped := Pipeline.counts_runOnClauses (fun _ _ => True)
    (fun r (hr : r ∈ pipeline.types) _ _ => spares_types hr) (fun _ _ => trivial) hscan
  rw [Pipeline.beforeShape]
  exact Pipeline.counts_runOnClauses MildIn (fun r hr _ h => spares_functions hr h) hmild htyped

theorem has_beforeShape (sql : Text) : (pipeline.beforeShape sql).state.has .limit
    = (scan (pipeline.runLexical sql).state).has .limit := by
  rw [Pipeline.beforeShape, Pipeline.has_runOnClauses, Pipeline.has_runOnClauses, Pipeline.outlined]

/-- The last stage writes at most one more `LIMIT`, and none where the clauses have a limit. -/
theorem census_runShape_le {g : Progress Outline} (hg : Counts limitWord N g.state.clauses) :
    census limitWord (pipeline.runShape g).state.render ≤ N +
      if "sybase.top_to_limit".toList ∈ (pipeline.runShape g).applied ∧ g.state.has .limit = false
        then 1 else 0 := by
  have hrun : pipeline.runShape g = g.step "sybase.top_to_limit" topToLimit? := rfl
  rw [hrun, Progress.step]
  cases hshape : topToLimit? g.state with
  | none => exact (hg.census_render (by decide)).trans (Nat.le_add_right _ _)
  | some o =>
    have hle := census_topToLimit? hshape hg
    cases hlimit : g.state.has .limit with
    | true => simpa [hlimit] using hle
    | false => simpa [hlimit] using hle

/-- **How often `LIMIT` is written**: as often as it stood behind the comments, and once more where
a count becomes a limit that the scanner has not seen. -/
theorem census_apply_le {sql : Text}
    (hmild : ∀ x ∈ Pipeline.bodies pipeline.functions (Pipeline.runOnClauses pipeline.types
      (Pipeline.outlined (pipeline.runLexical sql))).state, MildIn x.1 x.2) :
    census limitWord (pipeline.apply sql).text ≤ census limitWord (pipeline.runLexical sql).state +
      if "sybase.top_to_limit".toList ∈ (pipeline.apply sql).applied ∧
        (scan (pipeline.runLexical sql).state).has .limit = false then 1 else 0 := by
  rw [Pipeline.apply_text, Pipeline.apply_applied, ← has_beforeShape]
  exact census_runShape_le (counts_beforeShape hmild)

/-- Wherever `LIMIT` stands in a statement it can open a clause: no dot stands in front of it, and a
blank stands behind it. -/
def Visible (t : Text) : Prop := ∀ p < t.length,
  StandsBetween limitWord (t.take p) ((t.drop p).take limitWord.length)
      (t.drop (p + limitWord.length)) →
    (t.take p).getLast? ≠ some '.' ∧ (t.drop (p + limitWord.length)).head?.any isBlank = true

instance (t : Text) : Decidable (Visible t) := by
  unfold Visible
  infer_instance

/-- The keyword is found where the word stands with a blank behind it, and no dot in front. -/
theorem length?_limit {a u r : Text} (h : StandsBetween limitWord a u r)
    (hdot : a.getLast? ≠ some '.') (hblank : r.head?.any isBlank = true) :
    ClauseKind.limit.keyword.length? (lastOf none a) (u ++ r) ≠ none := by
  obtain ⟨c, hc, hisblank⟩ := (Option.any_eq_true _ _).1 hblank
  obtain ⟨r, rfl⟩ := List.head?_eq_some_iff.1 hc
  have hstart : Keyword.mayStartAfter (lastOf none a) = true := by
    rw [lastOf, Option.or_none]
    cases hlast : a.getLast? with
    | none => rfl
    | some d =>
      have hd : d ≠ '.' := fun h => hdot (hlast.trans (congrArg some h))
      simp [Keyword.mayStartAfter, h.front d hlast, hd]
  have hafter : Keyword.after? ClauseKind.limit.keyword.word (u ++ c :: r) = some (c :: r) := by
    rw [ClauseKind.keyword_word]
    exact (Keyword.after?_eq_some_iff (by decide)).2 ⟨u, rfl, h.spelled⟩
  have haccepts : ClauseKind.limit.keyword.accepts c = true := by
    rw [Keyword.accepts, hisblank]
    rfl
  rw [Keyword.length?_eq_some_iff.2 ⟨hstart, c, r, hafter, haccepts, rfl⟩]
  exact Option.some_ne_none _

/-- The scanner sees a `LIMIT` that stands in a statement, where it can open a clause. -/
theorem has_limit_of_visible {sql : Text} (hvisible : Visible (bodyOf sql))
    (hpos : 0 < census limitWord sql) : (scan sql).has .limit = true := by
  by_contra hnone
  have hclauses : ∀ c ∈ (scan sql).clauses, c.kind.rank < ClauseKind.limit.rank ∧
      census limitWord c.kind.word = 0 := by
    intro c hc
    have hne : c.kind ≠ .limit := fun hk => hnone (has_iff.2 (hk ▸ List.mem_map_of_mem hc))
    revert hne
    cases c.kind <;> decide
  obtain ⟨a, u, r, htext, hstands, hfound⟩ :=
    exists_unopened (by decide) hclauses hpos
  have hlength : u.length = limitWord.length := by
    rw [← hstands.spelled, asciiUpper, List.length_map]
  have hplace := hvisible a.length (by
    rw [htext]
    simp [List.length_pos_iff.2 (hstands.ne_nil (by decide))])
  rw [htext, List.take_left, List.drop_left, ← hlength, List.take_left, ← List.drop_drop,
    List.drop_left, List.drop_left] at hplace
  obtain ⟨hdot, hblank⟩ := hplace hstands
  exact length?_limit hstands hdot hblank hfound

/-- How often the word stands outside of marks of quotation and parentheses, in brackets or not. -/
def outerCensus (w t : Text) : Nat := census w (t.map fun c => if c == '[' then ',' else c)

theorem outerCensus_of_not_mem {t : Text} (h : '[' ∉ t) : outerCensus w t = census w t := by
  have hsame : (t.map fun c => if c == '[' then ',' else c) = t := by
    conv_rhs => rw [← List.map_id t]
    refine List.map_congr_left fun c hc => if_neg ?_
    intro hbracket
    exact h (eq_of_beq hbracket ▸ hc)
  rw [outerCensus, hsame]

/-- **A single limit.** What is returned has `LIMIT` once at most, where the text behind the
comments has it once at most and visibly, and the rules for functions are mild: their matches hold
quotations whole, and no identifier with a character that stood in brackets is `LIMIT`. Brackets
that are left count as quotations, or are not there. -/
theorem single_limit {sql : Text} (hone : census limitWord (pipeline.runLexical sql).state ≤ 1)
    (hvisible : Visible (bodyOf (pipeline.runLexical sql).state))
    (hmild : ∀ x ∈ Pipeline.bodies pipeline.functions (Pipeline.runOnClauses pipeline.types
      (Pipeline.outlined (pipeline.runLexical sql))).state, MildIn x.1 x.2) :
    census limitWord (pipeline.apply sql).text ≤ 1 ∧
      ('[' ∉ (pipeline.apply sql).text → outerCensus limitWord (pipeline.apply sql).text ≤ 1) := by
  have hle := census_apply_le hmild
  have hcount : census limitWord (pipeline.apply sql).text ≤ 1 := by
    rcases Nat.eq_zero_or_pos (census limitWord (pipeline.runLexical sql).state) with hzero | hpos
    · rw [hzero] at hle
      refine hle.trans ?_
      split <;> decide
    · rw [has_limit_of_visible hvisible hpos, if_neg (by simp), Nat.add_zero] at hle
      exact hle.trans hone
  exact ⟨hcount, fun hbracket => (outerCensus_of_not_mem hbracket).trans_le hcount⟩

/-- A statement with names in brackets, a count and a limit has a single limit in the end. -/
theorem single_limit_bracketed :
    census limitWord (pipeline.apply "SELECT TOP 5 [t], [ a] FROM u LIMIT 2").text ≤ 1 := by
  obtain ⟨hone, hvisible, hmild⟩ :
      census limitWord (pipeline.runLexical "SELECT TOP 5 [t], [ a] FROM u LIMIT 2").state ≤ 1 ∧
      Visible (bodyOf (pipeline.runLexical "SELECT TOP 5 [t], [ a] FROM u LIMIT 2").state) ∧
      ∀ x ∈ Pipeline.bodies pipeline.functions (Pipeline.runOnClauses pipeline.types
        (Pipeline.outlined (pipeline.runLexical "SELECT TOP 5 [t], [ a] FROM u LIMIT 2"))).state,
        MildIn x.1 x.2 := by decide +kernel
  exact (single_limit hone hvisible hmild).1

/-- A `LIMIT` with a parenthesis behind it is not seen, and the count becomes a second one. -/
theorem not_single_limit : ¬ ∀ sql : Text, census limitWord sql ≤ 1 →
    outerCensus limitWord (pipeline.apply sql).text ≤ 1 := by
  intro h
  obtain ⟨hone, htwo⟩ : census limitWord "SELECT TOP 5 name FROM t LIMIT(3)" ≤ 1 ∧
      outerCensus limitWord (pipeline.apply "SELECT TOP 5 name FROM t LIMIT(3)").text = 2 := by
    decide +kernel
  exact absurd (h _ hone) (by rw [htwo]; decide)

end Sybase

end SqlScribe
