import SqlScribe.Proofs.Clause.Ending
import SqlScribe.Proofs.Dialect.Comments
import SqlScribe.Proofs.Dialect.LastWord
import SqlScribe.Proofs.Statement.Verdict

/-!
# How a conversion ends

A semicolon that the scanner leaves in the last clause stays there: no rule on clauses sees it, and
the outline is written with another one behind. Where the scanner leaves none, no rule writes one.
Main statements:

* `Pipeline.finished_of`: what every rule keeps the rules together keep;
* `two_le_count_of_leavesSemicolon`, `count_le_one_of_avoids`: the semicolons of the text that is
  written;
* `exists_lexed_of_accepted`: what is scanned of a statement the gate let through;
* `terminators_agree_iff`: where the scanner and the normal form agree on how a statement ends.
-/

namespace SqlScribe

open Text Pattern Outline

/-! ## Rules on clauses -/

/-- What every rule keeps all of them together keep. -/
theorem Pipeline.finished_of {p : Pipeline} {P : Outline → Prop}
    (hrules : ∀ r ∈ p.types ++ p.functions, ∀ o, P o → P (r.applyToOutline o))
    (hshape : ∀ r ∈ p.shape, ∀ o, P o → P (r.applyToOutline o)) {o : Outline} (ho : P o) :
    P (p.finished o) :=
  List.foldlRecOn p.shape _
    (List.foldlRecOn (p.types ++ p.functions) _ ho fun o ho r hr => hrules r hr o ho)
    fun o ho r hr => hshape r hr o ho

/-- No rule on clauses writes a semicolon. -/
theorem Pipeline.KeepsEnd.avoids_finished {p : Pipeline} (h : p.KeepsEnd) {o : Outline}
    (ho : o.Avoids ';') : (p.finished o).Avoids ';' := by
  refine Pipeline.finished_of (P := fun o => o.Avoids ';') (fun r hr o ho => ?_)
    (fun r hr o ho => ?_) ho
  · exact ((List.mem_append.1 hr).elim (h.types r) (h.functions r)).applyToOutline ho
  · rw [ShapeRule.applyToOutline]
    cases hreshape : r.reshape? o with
    | none => exact ho
    | some o' => exact (h.shape r hr o o' hreshape ho).1

/-- No replacement of Hive looks behind the match. -/
theorem Hive.replacement_widen {r : TextRule}
    (hr : r ∈ Hive.pipeline.types ++ Hive.pipeline.functions) (v : Text) (m : Match) :
    r.replacement (m.widen v) = r.replacement m := by
  simp only [Hive.pipeline, List.mem_append, List.mem_cons, List.not_mem_nil, or_false] at hr
  rcases hr with (rfl | rfl | rfl) | (rfl | rfl | rfl | rfl | rfl | rfl | rfl) <;> rfl

/-- No rule on clauses sees a semicolon at the end of a text. -/
theorem Dialect.applyTo_concat_semicolon {d : Dialect} {p : Pipeline} (hp : d.pipeline? = some p)
    {r : TextRule} (hr : r ∈ p.types ++ p.functions) (t : Text) :
    r.applyTo (t ++ [';']) = r.applyTo t ++ [';'] := by
  have hhive : ∀ r ∈ Hive.pipeline.types ++ Hive.pipeline.functions,
      r.pattern.blindTo ';' [] = true := by
    decide +kernel
  have hsybase : ∀ r ∈ Sybase.pipeline.types ++ Sybase.pipeline.functions,
      r.pattern.blindTo ';' [] = true := by
    decide +kernel
  cases d with
  | canonical => exact absurd hp.symm (Option.some_ne_none p)
  | hive =>
    obtain rfl := Option.some.inj hp
    exact replaceAll_append (hhive r hr) (Hive.replacement_widen hr _)
  | sybase =>
    obtain rfl := Option.some.inj hp
    exact replaceAll_append (hsybase r hr) (Sybase.replacement_widen hr _)

/-! ## A semicolon that is left -/

/-- A semicolon ends the body of a clause, and another one the statement. -/
def Outline.LeavesSemicolon (o : Outline) : Prop :=
  o.terminated = true ∧ ∃ c ∈ o.clauses, c.body.getLast? = some ';'

namespace Outline.LeavesSemicolon

variable {o : Outline}

theorem applyToOutline {r : TextRule} (hr : ∀ t, r.applyTo (t ++ [';']) = r.applyTo t ++ [';'])
    (ho : o.LeavesSemicolon) : (r.applyToOutline o).LeavesSemicolon := by
  obtain ⟨hterm, c, hc, hlast⟩ := ho
  obtain ⟨b, hb⟩ := List.getLast?_eq_some_iff.1 hlast
  refine ⟨hterm, ⟨c.kind, r.applyTo c.body⟩, List.mem_map_of_mem hc, ?_⟩
  rw [hb, hr, List.getLast?_concat]

/-- A count is taken from in front of the semicolon, and a limit changes no clause. -/
theorem topToLimit {o' : Outline} (h : Sybase.topToLimit? o = some o') (ho : o.LeavesSemicolon) :
    o'.LeavesSemicolon := by
  obtain ⟨hterm, c, hc, hlast⟩ := ho
  unfold Sybase.topToLimit? at h
  split at h
  · exact absurd h (by simp)
  · next body hbody =>
    split at h
    · exact absurd h (by simp)
    · next m hm =>
      have hselected : ∃ d ∈ (o.edit .select fun _ => m.group 1 ++ m.after).clauses,
          d.body.getLast? = some ';' := by
        rcases mem_editClauses_of_mem (k := .select) (f := fun _ => m.group 1 ++ m.after) hc with
          hmem | ⟨hfind, hmem⟩
        · exact ⟨c, hmem, hlast⟩
        · refine ⟨_, hmem, ?_⟩
          -- the match ends in a blank, so the semicolon stands behind it
          rw [body?, hfind, Option.map_some, Option.some_inj] at hbody
          rw [hbody, ← (isOf_of_matchAt? hm).text_append, List.getLast?_append,
            Option.or_eq_some_iff] at hlast
          refine List.getLast?_append.trans ?_
          rcases hlast with hafter | ⟨-, htext⟩
          · rw [hafter, Option.some_or]
          · exact absurd ((Sybase.last_blank_of_topCount hm).1 _ htext) (by decide)
      obtain rfl := Option.some.inj h
      obtain ⟨d, hd, hdlast⟩ := hselected
      split
      · exact ⟨hterm, d, hd, hdlast⟩
      · next hlimit =>
        refine ⟨(terminated_set _ _ _).trans hterm, d, ?_, hdlast⟩
        rw [Outline.set, has_edit, if_neg hlimit]
        exact mem_insertClause_of_mem hd

/-- The rules of a dialect leave a semicolon that the scanner has left. -/
theorem finished {d : Dialect} {p : Pipeline} (hp : d.pipeline? = some p) (ho : o.LeavesSemicolon) :
    (p.finished o).LeavesSemicolon := by
  refine Pipeline.finished_of
    (fun r hr o ho => ho.applyToOutline (Dialect.applyTo_concat_semicolon hp hr))
    (fun r hr o ho => ?_) ho
  cases d with
  | canonical => exact absurd hp.symm (Option.some_ne_none p)
  | hive =>
    obtain rfl := Option.some.inj hp
    exact absurd hr List.not_mem_nil
  | sybase =>
    obtain rfl := Option.some.inj hp
    obtain rfl := List.mem_singleton.1 hr
    show ((Sybase.topToLimit? o).getD o).LeavesSemicolon
    cases htop : Sybase.topToLimit? o with
    | none => exact ho
    | some o' => exact ho.topToLimit htop

end Outline.LeavesSemicolon

/-! ## Writing -/

theorem Outline.mem_written {cs : List Clause} {c : Clause} (hc : c ∈ cs) {x : Char}
    (hx : x ∈ c.body) (hblank : isBlank x = false) : x ∈ written cs := by
  have hclause : x ∈ writeClause c := by
    by_cases hk : c.kind = .leading
    · rw [writeClause, hk]
      exact hx
    · rw [writeClause_eq hk]
      exact List.mem_append_right _ (List.mem_cons_of_mem _ hx)
  have hjoin : x ∈ join [' '] (cs.map writeClause) :=
    (infix_join (List.mem_map_of_mem hc)).subset hclause
  have hfilter : x ∈ (join [' '] (cs.map writeClause)).filter fun c => !isBlank c :=
    List.mem_filter.2 ⟨hjoin, by simp [hblank]⟩
  rw [← filter_collapse] at hfilter
  exact (List.mem_filter.1 hfilter).1

/-- A semicolon that is left is written beside the one that ends the statement. -/
theorem two_le_count_of_leavesSemicolon {o : Outline} (ho : o.LeavesSemicolon) :
    2 ≤ o.render.count ';' := by
  obtain ⟨hterm, c, hc, hlast⟩ := ho
  have hpos : 0 < (written o.clauses).count ';' :=
    List.count_pos_iff.2 (mem_written hc (List.mem_of_getLast? hlast) (by decide))
  rw [render_eq, hterm, if_pos rfl, List.count_append]
  have hone : [';'].count ';' = 1 := rfl
  omega

theorem count_le_one_of_avoids {o : Outline} (ho : o.Avoids ';') : o.render.count ';' ≤ 1 := by
  have hnone : (written o.clauses).count ';' = 0 :=
    List.count_eq_zero.2 (semicolon_not_mem_collapse ho)
  rw [render_eq, List.count_append, hnone]
  split <;> decide

/-! ## Lexical rules -/

/-- A separator is a word of letters. -/
theorem IsSeparator.exists_letter {l : Text} (h : IsSeparator l) :
    ';' ∉ l ∧ ∃ c ∈ l, Statement.isTerminator c = false := by
  obtain ⟨w, hw, hfold⟩ := List.map_eq_singleton_iff.1 h
  have hmem : ∀ c ∈ w, simpleFold c ∈ ['g', 'o'] := fun c hc => hfold ▸ List.mem_map_of_mem hc
  have hsemicolon : ';' ∉ w := fun hc => absurd (hmem _ hc) (by decide)
  constructor
  · intro hc
    have hflat : ';' ∈ (words l).flatten := by
      rw [flatten_words]
      exact List.mem_filter.2 ⟨hc, by decide⟩
    rw [hw, List.flatten_singleton] at hflat
    exact hsemicolon hflat
  · obtain ⟨hne, hblank⟩ : IsWord w := isWord_of_mem_words (hw ▸ List.mem_singleton_self w)
    obtain ⟨c, r, rfl⟩ := List.exists_cons_of_ne_nil hne
    refine ⟨c, mem_of_mem_words (hw ▸ List.mem_singleton_self _) List.mem_cons_self, ?_⟩
    rw [Statement.isTerminator, hblank c List.mem_cons_self, Bool.or_false]
    exact beq_eq_false_iff_ne.2 fun heq => hsemicolon (heq ▸ List.mem_cons_self)

/-- A text without a separator among its lines keeps its words. -/
theorem standing_eq_words {t : Text} (h : ∀ l ∈ cut (· == '\n') t, ¬ IsSeparator l) :
    standing t = words t := by
  rw [standing, words_eq_flatMap_lines]
  exact List.flatMap_congr fun l hl => if_neg (h l hl)

/-- On the line of a semicolon with nothing but terminators behind it, and on the lines behind, all
words stay. -/
theorem standing_line_semicolon {x y : Text} (hx : '\n' ∉ x)
    (hy : ∀ c ∈ y, Statement.isTerminator c = true) :
    standing (x ++ ';' :: y) = words (x ++ ';' :: y) := by
  have hlines : ∃ s ss, cut (· == '\n') (x ++ ';' :: y) = s :: ss ∧ ';' ∈ s ∧
      ∀ l ∈ ss, ∀ c ∈ l, c ∈ y := by
    induction x with
    | nil =>
      obtain ⟨s, ss, hs, hcut⟩ := cut_cons_of_neg (p := (· == '\n')) (c := ';') (by decide) y
      refine ⟨_, ss, hcut, List.mem_cons_self, fun l hl c hc => ?_⟩
      exact (mem_of_mem_cut (hs ▸ List.mem_cons_of_mem s hl) hc).1
    | cons d x ih =>
      rw [List.mem_cons, not_or] at hx
      obtain ⟨s, ss, hs, hsemi, hss⟩ := ih hx.2
      obtain ⟨s', ss', hs', hcut⟩ := cut_cons_of_neg (p := (· == '\n')) (c := d)
        (beq_eq_false_iff_ne.2 (Ne.symm hx.1)) (x ++ ';' :: y)
      obtain ⟨rfl, rfl⟩ := List.cons.inj (hs.symm.trans hs')
      exact ⟨_, ss, hcut, List.mem_cons_of_mem d hsemi, hss⟩
  obtain ⟨s, ss, hcut, hsemi, hss⟩ := hlines
  refine standing_eq_words fun l hl hsep => ?_
  obtain ⟨hnone, c, hc, hterm⟩ := hsep.exists_letter
  rcases List.mem_cons.1 (hcut ▸ hl) with rfl | hl
  · exact hnone hsemi
  · rw [hy c (hss l hl c hc)] at hterm
    exact Bool.noConfusion hterm

/-- The lines that stay of a statement that ends in terminators have the words of such a
statement. -/
theorem exists_standing {x y : Text} (hx : ';' ∉ x)
    (hy : ∀ c ∈ y, Statement.isTerminator c = true) :
    ∃ v, ';' ∉ v ∧ standing (x ++ ';' :: y) = words (v ++ ';' :: y) := by
  induction hn : x.length using Nat.strong_induction_on generalizing x with
  | _ n ih =>
    by_cases hbreak : '\n' ∈ x
    · obtain ⟨l, x, rfl, hl⟩ := List.eq_append_cons_of_mem hbreak
      simp only [List.mem_append, List.mem_cons, not_or] at hx
      obtain ⟨v, hv, hwords⟩ := ih x.length (by simp [← hn]; omega) hx.2.2 rfl
      have hline : ∀ w ∈ standingLine l, IsWord w ∧ ∀ c ∈ w, c ∈ l := by
        intro w hw
        rw [standingLine] at hw
        split at hw
        · exact absurd hw List.not_mem_nil
        · exact ⟨isWord_of_mem_words hw, fun c hc => mem_of_mem_words hw hc⟩
      refine ⟨join [' '] (standingLine l) ++ ' ' :: v, fun hc => ?_, ?_⟩
      · rcases List.mem_append.1 hc with hc | hc
        · rcases mem_join hc with hc | ⟨w, hw, hc⟩
          · exact absurd hc (by decide)
          · exact hx.1 ((hline w hw).2 _ hc)
        · exact hv ((List.mem_cons.1 hc).resolve_left (by decide))
      · rw [List.append_assoc, List.append_assoc, List.cons_append, List.cons_append,
          standing_append_break, standing_of_line hl, words_append_cons (by decide),
          words_join fun w hw => (hline w hw).1, hwords]
    · exact ⟨x, hx, standing_line_semicolon hbreak hy⟩

/-- The lexical rules write nothing. -/
theorem Dialect.semicolon_not_mem_lexed {d : Dialect} {p : Pipeline} (hp : d.pipeline? = some p)
    {sql : Text} (h : ';' ∉ sql) : ';' ∉ p.lexed sql := by
  have hrules : ∀ r ∈ p.lexical, r.Avoids ';' := by
    cases d with
    | canonical => exact absurd hp.symm (Option.some_ne_none p)
    | hive =>
      obtain rfl := Option.some.inj hp
      intro r hr
      simp only [Hive.pipeline, List.mem_cons, List.not_mem_nil, or_false] at hr
      rcases hr with rfl | rfl <;> exact TextRule.avoids_const List.not_mem_nil _ _
    | sybase =>
      obtain rfl := Option.some.inj hp
      intro r hr
      simp only [Sybase.pipeline, List.mem_cons, List.not_mem_nil, or_false] at hr
      rcases hr with rfl | rfl | rfl <;> exact TextRule.avoids_const List.not_mem_nil _ _
  exact List.foldlRecOn (motive := fun t => ';' ∉ t) p.lexical _ h fun t ht r hr =>
    (hrules r hr).applyTo ht

/-- Behind the lexical rules a statement that the gate let through still is a text without
semicolons with terminators behind it, and they stand together where they did before. -/
theorem exists_lexed_of_accepted {d : Dialect} {p : Pipeline} (hp : d.pipeline? = some p)
    {sql : Text} (h : Statement.Accepted sql) :
    ∃ v y, ';' ∉ v ∧ (∀ c ∈ y, Statement.isTerminator c = true) ∧
      words (p.lexed sql) = words (v ++ y) ∧
      (Statement.Together (v ++ y) ↔ Statement.Together sql) := by
  rcases Statement.semicolons_of_accepted h with hnone | ⟨x, y, rfl, hx, hy⟩
  · have hlexed := Dialect.semicolon_not_mem_lexed hp hnone
    refine ⟨p.lexed sql, [], hlexed, by simp, by rw [List.append_nil], ?_⟩
    rw [Statement.together_append_iff hlexed (by simp), ← List.append_nil sql,
      Statement.together_append_iff hnone (by simp)]
  · have huncommented : Uncommented (x ++ ';' :: y) :=
      ⟨Statement.not_infix_of_accepted h (by decide), Statement.not_infix_of_accepted h (by decide)⟩
    obtain ⟨v, hv, hwords⟩ : ∃ v, ';' ∉ v ∧
        words (p.lexed (x ++ ';' :: y)) = words (v ++ ';' :: y) := by
      rw [Dialect.lexed_uncommented hp huncommented]
      cases d with
      | canonical => exact absurd hp.symm (Option.some_ne_none p)
      | hive =>
        obtain rfl := Option.some.inj hp
        exact ⟨x, hx, rfl⟩
      | sybase =>
        obtain rfl := Option.some.inj hp
        obtain ⟨v, hv, hstanding⟩ := exists_standing hx (List.forall_mem_cons.1 hy).2
        refine ⟨v, hv, ?_⟩
        show words (goSeparator.replaceAll (fun _ => []) (x ++ ';' :: y)) = _
        rw [replaceAll_eq, ← hstanding]
        exact words_replaceFrom_goSeparator (Or.inl (Or.inl rfl))
    refine ⟨v, ';' :: y, hv, hy, hwords, ?_⟩
    rw [Statement.together_append_iff hv hy, Statement.together_append_iff hx hy]

/-! ## Terminators -/

/-- What the rules on clauses make of a statement is told from the words it has behind the lexical
rules. -/
theorem Dialect.apply_text_of_words {d : Dialect} {p : Pipeline} (hp : d.pipeline? = some p)
    {sql t : Text} (h : words (p.lexed sql) = words t) :
    (p.apply sql).text = (p.finished (scan t)).render := by
  have hfinished := (Dialect.keepsLayout hp).squeezed_finished_congr (squeezed_scan_congr h)
  rw [p.apply_text_eq, ← render_squeezed, hfinished, render_squeezed]

/-- A statement that the gate let through is brought to one with a single semicolon, or none,
exactly where the semicolons at its end stand together. -/
theorem count_semicolon_apply_iff {d : Dialect} {p : Pipeline} (hp : d.pipeline? = some p)
    {sql : Text} (h : Statement.Accepted sql) :
    (p.apply sql).text.count ';' ≤ 1 ↔ Statement.Together sql := by
  obtain ⟨v, y, hv, hy, hwords, htogether⟩ := exists_lexed_of_accepted hp h
  rw [Dialect.apply_text_of_words hp hwords, ← htogether]
  by_cases hends : Statement.Together (v ++ y)
  · have havoids := (Dialect.keepsEnd hp).avoids_finished (avoids_scan_of_together hv hy hends)
    exact iff_of_true (count_le_one_of_avoids havoids) hends
  · have hlast := (getLast?_bodyOf_iff (v ++ y)).2 hends
    obtain ⟨c, hc, hbody⟩ := (exists_last_body_iff (v ++ y)).2 hlast
    have hleaves : (scan (v ++ y)).LeavesSemicolon :=
      ⟨terminated_of_getLast?_bodyOf hlast, c, List.mem_of_getLast? hc, hbody⟩
    have hcount := two_le_count_of_leavesSemicolon (hleaves.finished hp)
    exact iff_of_false (by omega) hends

/-- **Where the scanner and the normal form agree on how a statement ends.** They do exactly where
the semicolons at the end stand together, with no blank between them. Elsewhere all but the last run
of them stay in the last clause, and a statement that the gate let through is converted to one with
more than one semicolon. -/
theorem terminators_agree_iff (sql : Text) :
    (Statement.unterminated (scan sql).render =
        Statement.unterminated (scan (Statement.normalize sql)).render ↔ Statement.Together sql) ∧
    ((∃ c, (scan sql).clauses.getLast? = some c ∧ c.body.getLast? = some ';') ↔
      ¬ Statement.Together sql) ∧
    ∀ (d : Dialect) (p : Pipeline), d.pipeline? = some p → Statement.Accepted sql →
      ((p.apply sql).text.count ';' ≤ 1 ↔ Statement.Together sql) := by
  refine ⟨?_, ?_, fun d p hp h => count_semicolon_apply_iff hp h⟩
  · rw [unterminated_render_iff, Ne, getLast?_bodyOf_iff, not_not]
  · rw [exists_last_body_iff, getLast?_bodyOf_iff]

/-- A blank between two semicolons, in a statement that the gate lets through. -/
theorem terminators_agree_iff_spread : Statement.Accepted "SELECT a FROM t; ;" ∧
    ¬ (Hive.pipeline.apply "SELECT a FROM t; ;").text.count ';' ≤ 1 := by
  have haccepted : Statement.Accepted "SELECT a FROM t; ;" := by decide
  refine ⟨haccepted, fun hcount => ?_⟩
  have htogether := ((terminators_agree_iff _).2.2 .hive _ rfl haccepted).1 hcount
  exact absurd htogether (by decide)

/-- The scanner and the normal form do not always agree, and a conversion may end in two
semicolons. -/
theorem not_terminators_agree :
    (¬ ∀ sql : Text, Statement.unterminated (scan sql).render =
        Statement.unterminated (scan (Statement.normalize sql)).render) ∧
    ¬ ∀ (d : Dialect) (p : Pipeline) (sql : Text), d.pipeline? = some p → Statement.Accepted sql →
      ¬ ";;".toList <:+ (p.apply sql).text := by
  constructor
  · intro h
    exact absurd (h "SELECT a FROM t; ;") (by decide +kernel)
  · intro h
    exact h .hive Hive.pipeline "SELECT a FROM t; ;" rfl (by decide)
      ⟨"SELECT a FROM t", by decide +kernel⟩

end SqlScribe
