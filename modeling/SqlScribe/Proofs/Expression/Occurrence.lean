import SqlScribe.Proofs.Expression.Scanning

/-!
# Calls that occur in a statement

A search for the opening of a call finds one in a statement exactly if the expression that the
statement selects has a call with this name. Main statements:

* `exists_place`: where a call stands in what is written;
* `findAll_opening_selecting`: what a search through a selection finds.
-/

namespace SqlScribe

open SqlScribe.Expr

/-! ## Where calls stand -/

/-- A part stands behind the parenthesis or behind a space. -/
theorem Expr.exists_front_of_mem (name : Text) {e : Expr} {parts : List Expr} (h : e ∈ parts) :
    ∃ u r, Text.join (separator name) (parts.map write) = u ++ (e.write ++ r) ∧
      ∀ c, u.getLast? = some c → c = ' ' := by
  induction parts with
  | nil => exact absurd h List.not_mem_nil
  | cons d parts ih =>
    by_cases hnil : parts = []
    · subst hnil
      obtain rfl := List.mem_singleton.1 h
      exact ⟨[], [], by simp [Text.join], by simp⟩
    · rw [List.map_cons, Text.join_cons _ _ (by simpa using hnil)]
      rcases List.mem_cons.1 h with rfl | h
      · exact ⟨[], _, List.append_assoc _ _ _, by simp⟩
      · obtain ⟨u, r, hjoin, hu⟩ := ih h
        refine ⟨d.write ++ separator name ++ u, r, by simp [hjoin], fun c hc => ?_⟩
        cases u with
        | nil =>
          rw [List.append_nil] at hc
          have hlast := getLast?_separator name none
          rw [Option.or_none] at hlast
          rw [List.getLast?_append, hlast] at hc
          exact (Option.some.inj hc).symm
        | cons x u =>
          rw [List.getLast?_append_of_ne_nil _ (List.cons_ne_nil x u)] at hc
          exact hu c hc

/-- A call stands in what is written of its expression, behind no character of a word. -/
theorem Expr.exists_place {e : Expr} (he : e.Formed) {P : Text → Prop}
    (h : ¬ e.All fun g _ => P g) : ∃ v g r, e.write = v ++ (g ++ '(' :: r) ∧
      v.getLast?.any isWordChar = false ∧ (∀ c ∈ g, isLabelChar c = true) ∧ ¬ P g := by
  induction he with
  | atom => exact absurd trivial h
  | @node g parts hg _ ih =>
    rw [all_node_iff] at h
    by_cases hnode : P g
    · have hparts : ¬ ∀ e ∈ parts, e.All fun g _ => P g := fun hall => h ⟨hnode, hall⟩
      push Not at hparts
      obtain ⟨e, he, hmiss⟩ := hparts
      obtain ⟨v, x, r, hwrite, hv, hx, hP⟩ := ih e he hmiss
      obtain ⟨u, s, hjoin, hu⟩ := exists_front_of_mem g he
      refine ⟨g ++ '(' :: (u ++ v), x, r ++ s ++ [')'], ?_, ?_, hx, hP⟩
      · rw [write_node, hjoin, hwrite]
        simp
      · rw [List.getLast?_append_of_ne_nil _ (List.cons_ne_nil _ _)]
        cases v with
        | nil =>
          cases u with
          | nil => rfl
          | cons y u =>
            have hlast : ('(' :: (y :: u ++ [])).getLast? = (y :: u).getLast? := by simp
            rw [hlast, List.getLast?_eq_some_getLast (List.cons_ne_nil y u),
              hu _ (List.getLast?_eq_some_getLast (List.cons_ne_nil y u))]
            decide
        | cons y v =>
          rw [← List.cons_append, List.getLast?_append_of_ne_nil _ (List.cons_ne_nil y v)]
          exact hv
    · exact ⟨[], g, _, write_node g parts, rfl, hg, hnode⟩

/-! ## What a search finds -/

namespace OpensWith

variable {p : Pattern} {names : List Text} {b : Option Char}

/-- A match at a word in front of a space has the word for its name. -/
theorem exists_name_of_space (h : OpensWith p names) {w t : Text} {m : Match}
    (hw : ∀ c ∈ w, isWordChar c = true) (hm : p.matchAt? b (w ++ ' ' :: t) = some m) :
    ∃ n ∈ names, Pattern.SameLetters w n := by
  have hof := Pattern.isOf_of_matchAt? hm
  obtain ⟨n, hn, g, e, x, htext, hg, -, hword, he⟩ := h.exists_front hof.spells
  have happ := hof.text_append
  rw [htext, List.append_assoc, List.append_assoc] at happ
  have hstop : ∀ c, (e ++ ('(' :: x ++ m.after)).head? = some c → isWordChar c = false := by
    intro c hc
    cases e with
    | nil => exact Option.some.inj hc ▸ by decide
    | cons d e => exact Option.some.inj hc ▸ isWordChar_of_isBlank (he d List.mem_cons_self)
  have hsame := congrArg (List.takeWhile isWordChar) happ
  have hspace : ∀ c, (' ' :: t).head? = some c → isWordChar c = false :=
    fun c hc => Option.some.inj hc ▸ by decide
  rw [Text.takeWhile_append_of_head hword hstop, Text.takeWhile_append_of_head hw hspace] at hsame
  exact ⟨n, hn, hsame ▸ hg⟩

/-- Nothing is found from the word of a selection to its expression. -/
theorem quiet_select (h : OpensWith p names) (hselect : ∀ n ∈ names, n.asciiLower ≠ "select".toList)
    {e : Expr} (he : e.Formed) {r : Text} (hr : Shut r) :
    Pattern.Quiet p none "SELECT ".toList (e.write ++ r) := by
  have hword : p.matchAt? none ("SELECT".toList ++ ' ' :: (e.write ++ r)) = none := by
    by_contra hne
    obtain ⟨m, hm⟩ := Option.ne_none_iff_exists'.1 hne
    obtain ⟨n, hn, hsame⟩ := h.exists_name_of_space (by decide) hm
    have hlower := (Pattern.sameLetters_iff (by decide) (h.labels n hn).2).1 hsame
    exact hselect n hn (hlower.symm.trans (by decide))
  refine .cons hword (.cons ?_ (.cons ?_ (.cons ?_ (.cons ?_ (.cons ?_ (.cons ?_ .nil))))))
  · exact h.matchAt?_inside (by decide) (by decide) _
  · exact h.matchAt?_inside (by decide) (by decide) _
  · exact h.matchAt?_inside (by decide) (by decide) _
  · exact h.matchAt?_inside (by decide) (by decide) _
  · exact h.matchAt?_inside (by decide) (by decide) _
  · exact h.calling.matchAt?_space he hr

end OpensWith

/-- **The calls of a selection.** A search for the opening of a call finds none exactly if no call
in the selected expression has this name. -/
theorem findAll_opening_selecting {n : Text} (hn : n ≠ [] ∧ ∀ c ∈ n, isLabelChar c = true)
    (hselect : n.asciiLower ≠ "select".toList) {e : Expr} (he : e.Formed) :
    (Pattern.opening n).findAll (selecting e.write) = [] ↔
      e.All fun g _ => g.asciiLower ≠ n.asciiLower := by
  have hopens : OpensWith (Pattern.opening n) [n] := OpensWith.opening hn.1 hn.2
  have htext : selecting e.write = "SELECT ".toList ++ (e.write ++ " FROM t".toList) :=
    List.append_assoc _ _ _
  have hshut : Shut " FROM t".toList := Or.inl (by decide)
  constructor
  · intro hfind
    by_contra hmiss
    obtain ⟨v, g, r, hwrite, hv, hg, hP⟩ := exists_place he hmiss
    have hsame := (Pattern.sameLetters_iff hg hn.2).2 (not_not.1 hP)
    have hsplit : selecting e.write =
        ("SELECT ".toList ++ v) ++ (g ++ ['('] ++ (r ++ " FROM t".toList)) := by
      rw [htext, hwrite]
      simp only [List.append_assoc, List.cons_append, List.nil_append]
    have hb : ("SELECT ".toList ++ v).getLast?.any isWordChar = false := by
      cases v with
      | nil => decide
      | cons c v =>
        rw [List.getLast?_append_of_ne_nil _ (List.cons_ne_nil c v)]
        exact hv
    obtain ⟨m, hm⟩ := Pattern.exists_hit (Pattern.matchAt?_opening hsame hn.1 hn.2 hb _)
    rw [← hsplit] at hm
    have hmem : m ∈ (Pattern.opening n).findAll (selecting e.write) :=
      List.mem_filterMap.2 ⟨_, hm, rfl⟩
    rw [hfind] at hmem
    exact absurd hmem List.not_mem_nil
  · intro hall
    -- a rule that drops what it finds leaves the statement as it is
    let probe : TextRule := ⟨[], Pattern.opening n, fun _ => []⟩
    have hrewrites : (CallRule.idle probe).Rewrites fun g _ => g.asciiLower ≠ n.asciiLower := by
      refine CallRule.rewrites_idle hopens.calling fun r hg hP => ?_
      by_contra hne
      obtain ⟨m, hm⟩ := Option.ne_none_iff_exists'.1 hne
      obtain ⟨x, hx, hname⟩ := hopens.exists_name hg hm
      exact hP (List.mem_singleton.1 hx ▸ hname)
    have hend : ∀ b, Pattern.replaceFrom probe.pattern probe.replacement b " FROM t".toList =
        " FROM t".toList := by
      intro b
      have hquiet : Pattern.Quiet probe.pattern b " FROM t".toList [] :=
        hopens.calling.quiet_atom (by decide) (Or.inl List.not_mem_nil)
      have hrest := Pattern.replaceFrom_quiet (f := probe.replacement) hquiet
      rwa [Pattern.replaceFrom_nil, List.append_nil] at hrest
    have hkeep : probe.applyTo (selecting e.write) = selecting e.write := by
      have hfront := Pattern.replaceFrom_quiet (f := probe.replacement)
        (hopens.quiet_select (fun x hx => List.mem_singleton.1 hx ▸ hselect) he hshut)
      have hexpr := hrewrites.replaceFrom_write he hall (b := some ' ') (by decide) hshut
      rw [CallRule.turn_eq_self rfl he] at hexpr
      rw [TextRule.applyTo, Pattern.replaceAll_eq, htext]
      exact hfront.trans (congrArg ("SELECT ".toList ++ ·)
        (hexpr.trans (congrArg (e.write ++ ·) (hend _))))
    have hshrinks : Pattern.Shrinks probe.pattern probe.replacement := fun m b t hof =>
      List.length_pos_iff.2 hof.text_ne
    refine List.filterMap_eq_nil_iff.2 fun piece hpiece => ?_
    cases piece with
    | plain c => rfl
    | hit m => exact absurd hpiece (hshrinks.no_hit hkeep m)

end SqlScribe
