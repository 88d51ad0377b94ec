import SqlScribe.Proofs.Clause.TopLevel
import SqlScribe.Proofs.Dialect.Rules
import SqlScribe.Proofs.Pattern.Behind

/-!
# The last word of a statement

A word behind a statement is the last word of its last clause. The rules for Sybase that work on
clauses do not see it when it is no word of theirs, and a count that becomes a `LIMIT` is the only
thing that is ever written behind it. Main statements:

* `Outline.exists_last_clause`: where a scan puts the last word;
* `Outline.Trails.applyToOutline`, `Sybase.trails_topToLimit?`: what the rules do to it;
* `Sybase.words_apply`: what is written last.
-/

namespace SqlScribe

namespace Text

/-- The text is the word, or ends in it behind a space. -/
def LastWord (w t : Text) : Prop := t = w ∨ ∃ v, t = v ++ ' ' :: w

variable {w t a b : Text}

theorem LastWord.words (hw : IsWord w) (h : LastWord w t) : (words t).getLast? = some w := by
  rcases h with rfl | ⟨v, rfl⟩
  · rw [words_of_isWord hw]
    rfl
  · rw [words_append_cons (by decide), words_of_isWord hw, List.getLast?_concat]

theorem LastWord.last_not_blank (hw : IsWord w) (h : LastWord w t) :
    ∃ c, t.getLast? = some c ∧ isBlank c = false := by
  obtain ⟨c, hc⟩ := Option.ne_none_iff_exists'.1 (List.getLast?_eq_none_iff.not.2 hw.1)
  refine ⟨c, ?_, hw.2 c (List.mem_of_getLast? hc)⟩
  rcases h with rfl | ⟨v, rfl⟩
  · exact hc
  · rw [List.append_cons, List.getLast?_append, hc, Option.some_or]

/-- Trimmed, a text with a word behind it still ends in the word. -/
theorem lastWord_trim (hw : IsWord w) (v : Text) : LastWord w (trim (v ++ ' ' :: w)) := by
  have hend : ∀ {u : Text}, LastWord w u → trimEnd u = u := fun hu => by
    obtain ⟨d, hd, hblank⟩ := hu.last_not_blank hw
    exact dropEnd_eq_self fun c hc => Option.some.inj (hd.symm.trans hc) ▸ hblank
  obtain ⟨c, r, rfl⟩ := List.exists_cons_of_ne_nil hw.1
  have hc := hw.2 c List.mem_cons_self
  rw [trim, trimStart, List.dropWhile_append]
  split
  · refine Or.inl ?_
    rw [List.dropWhile_cons_of_pos (by decide), List.dropWhile_cons_of_neg (by simp [hc])]
    exact hend (Or.inl rfl)
  · exact Or.inr ⟨v.dropWhile isBlank, hend (Or.inr ⟨_, rfl⟩)⟩

end Text

namespace Outline

variable {x w : Text} {o : Outline}

/-! ## Scanning -/

/-- A word behind a text is the last word of the last clause: it is never taken for what has to
follow a keyword. -/
theorem exists_last_clause (hw : w ≠ []) (hchars : ∀ c ∈ w, isIdentifierChar c = true) (x : Text) :
    ∃ cs k b, clausesOf (x ++ ' ' :: w) = cs ++ [⟨k, b⟩] ∧ Text.LastWord w b := by
  have hword : Text.IsWord w := ⟨hw, fun c hc => isBlank_of_isIdentifierChar (hchars c hc)⟩
  obtain ⟨b, ss, htext, -, hsplit, hkinds, hstands⟩ :=
    Stretch.exists_of_split .leading [] (x ++ ' ' :: w) rfl
  rw [lastOf_nil] at hsplit
  rcases List.eq_nil_or_concat ss with rfl | ⟨ss, s, rfl⟩
  · have hb : b = x ++ ' ' :: w := by simpa [Stretch.textOf] using htext.symm
    have hlast := hb ▸ Text.lastWord_trim hword x
    refine ⟨[], .leading, Text.trim b, ?_, hlast⟩
    have hne : (Text.trim b).isEmpty = false := by
      rcases hlast with h | ⟨v, h⟩ <;> simp [h, hw]
    simp [clausesOf, hsplit, hne]
  · rw [List.concat_eq_append] at htext hsplit hkinds hstands
    have hstand := hstands ss s [] (by simp)
    have hfound := hstand.found (hkinds s (by simp)).1
    -- the keyword is found with something behind it, and the word is nothing of that kind
    have hbody : ' ' :: w <:+ s.body := by
      have hfront : x ++ ' ' :: w = (b ++ Stretch.textOf ss) ++ (s.keyword ++ s.body) := by
        rw [htext, Stretch.textOf, List.flatMap_append, List.flatMap_singleton, Stretch.text,
          List.append_assoc, Stretch.textOf]
      rw [List.nil_append, List.nil_append, hfront, Keyword.lengthAt?_append,
        Keyword.length?_eq_some_iff] at hfound
      obtain ⟨-, d, r, hafter, hacc, hlength⟩ := hfound
      obtain ⟨u, hu, -, -⟩ := Keyword.taken_of_after? hafter
      have hlengths := congrArg List.length hu
      simp only [List.length_append, List.length_cons] at hlength hlengths
      obtain ⟨-, hs⟩ := List.append_inj hu (by omega)
      have hsuffix : s.body <:+ x ++ ' ' :: w :=
        ⟨b ++ Stretch.textOf ss ++ s.keyword, by rw [hfront, List.append_assoc]⟩
      rcases Nat.lt_or_ge s.body.length (' ' :: w).length with hlt | hge
      · exfalso
        have hin : s.body <:+ w := by
          refine List.suffix_of_suffix_length_le hsuffix ⟨x ++ [' '], by simp⟩ ?_
          simpa [Nat.lt_succ_iff] using hlt
        have hd := hchars d (hin.subset (hs ▸ List.mem_cons_self))
        rw [ClauseKind.isIdentifierChar_of_accepts hacc] at hd
        exact absurd hd Bool.false_ne_true
      · exact List.suffix_of_suffix_length_le ⟨x, rfl⟩ hsuffix hge
    obtain ⟨y, hy⟩ := hbody
    have hlast : Text.LastWord w (Text.trim s.body) := hy ▸ Text.lastWord_trim hword y
    rw [clausesOf, hsplit]
    simp only [List.map_append, List.map_cons, List.map_nil]
    split
    · exact ⟨_, _, _, rfl, hlast⟩
    · exact ⟨_, _, _, (List.cons_append).symm, hlast⟩

/-! ## Rules on clauses -/

/-- The last word of the last clause is `w`. -/
def Trails (w : Text) (o : Outline) : Prop :=
  ∃ cs k b, o.clauses = cs ++ [⟨k, b⟩] ∧ Text.LastWord w b

/-- A rule that does not see a word behind a text leaves it the last one. -/
theorem Trails.applyToOutline {r : TextRule} (hblind : r.pattern.blindTo ' ' w = true)
    (hlocal : ∀ v m, r.replacement (m.widen v) = r.replacement m) (hself : r.applyTo w = w)
    (ho : o.Trails w) : (r.applyToOutline o).Trails w := by
  obtain ⟨cs, k, b, hcs, hb⟩ := ho
  refine ⟨cs.map fun c => { c with body := r.applyTo c.body }, k, r.applyTo b, ?_, ?_⟩
  · simp [TextRule.applyToOutline, hcs]
  · rcases hb with rfl | ⟨v, rfl⟩
    · exact Or.inl hself
    · exact Or.inr ⟨r.applyTo v, Pattern.replaceAll_append hblind (hlocal _)⟩

/-! ## Writing -/

/-- The words of what is written for clauses. -/
def wordsOf (cs : List Clause) : List Text := cs.flatMap fun c => Text.words (writeClause c)

theorem wordsOf_append (cs ds : List Clause) : wordsOf (cs ++ ds) = wordsOf cs ++ wordsOf ds := by
  simp [wordsOf]

theorem words_writeClause_getLast? {k : ClauseKind} {b : Text}
    (h : (Text.words b).getLast? = some w) :
    (Text.words (writeClause ⟨k, b⟩)).getLast? = some w := by
  by_cases hk : k = .leading
  · subst hk
    exact h
  · rw [words_writeClause hk, List.getLast?_append, h, Option.some_or]

/-- The last word of the last clause is written last. -/
theorem exists_wordsOf (cs : List Clause) (k : ClauseKind) {b : Text}
    (hb : (Text.words b).getLast? = some w) : ∃ ws, wordsOf (cs ++ [⟨k, b⟩]) = ws ++ [w] := by
  have hlast : (wordsOf (cs ++ [⟨k, b⟩])).getLast? = some w := by
    rw [wordsOf_append, List.getLast?_append]
    simp [wordsOf, words_writeClause_getLast? hb]
  obtain ⟨ws, hws⟩ := List.getLast?_eq_some_iff.1 hlast
  exact ⟨ws, hws⟩

/-! ## Changing clauses -/

/-- Changing a clause changes one in front or the last one. -/
theorem editClauses_concat (k : ClauseKind) (f : Text → Text) (cs : List Clause) (c : Clause) :
    editClauses k f (cs ++ [c]) =
      if cs.any fun d => d.kind == k then editClauses k f cs ++ [c]
      else cs ++ [if c.kind == k then ⟨k, f c.body⟩ else c] := by
  induction cs with
  | nil =>
    rw [List.nil_append, editClauses, editClauses]
    split <;> rfl
  | cons d cs ih =>
    rw [List.cons_append, editClauses, editClauses, List.any_cons]
    cases hd : d.kind == k with
    | true => simp
    | false =>
      rw [if_neg Bool.false_ne_true, if_neg Bool.false_ne_true, ih, Bool.false_or]
      split <;> rfl

/-- A clause of the last kind in the order is put at the end. -/
theorem insertClause_of_last {n : Clause} {cs : List Clause}
    (h : ∀ c ∈ cs, c.kind.rank ≤ n.kind.rank) :
    insertClause n cs = cs ++ [n] := by
  induction cs with
  | nil => rfl
  | cons c cs ih =>
    rw [List.forall_mem_cons] at h
    rw [insertClause, if_neg (Nat.not_lt.2 h.1), ih h.2, List.cons_append]

end Outline

/-! ## Sybase -/

namespace Sybase

open Pattern Outline

/-- No rule on clauses sees a separator behind a text. -/
theorem blind_separator : ∀ r ∈ pipeline.types ++ pipeline.functions,
    r.pattern.blindTo ' ' "GO" = true ∧ r.applyTo "GO" = "GO" := by
  decide +kernel

/-- No replacement looks behind the match. -/
theorem replacement_widen {r : TextRule} (hr : r ∈ pipeline.types ++ pipeline.functions) (v : Text)
    (m : Match) : r.replacement (m.widen v) = r.replacement m := by
  simp only [pipeline, List.mem_append, List.mem_cons, List.not_mem_nil, or_false] at hr
  rcases hr with (rfl | rfl | rfl | rfl | rfl) |
    (rfl | rfl | rfl | rfl | rfl | rfl | rfl | rfl | rfl | rfl | rfl) <;> rfl

theorem trails_runOnClauses {rules : List TextRule}
    (hrules : ∀ r ∈ rules, r ∈ pipeline.types ++ pipeline.functions) {g : Progress Outline}
    (hg : g.state.Trails "GO") : (Pipeline.runOnClauses rules g).state.Trails "GO" := by
  refine Progress.foldl_state TextRule.name TextRule.changeOutline? (fun r hr o o' ho hr' => ?_) hg
  obtain ⟨hblind, hself⟩ := blind_separator r (hrules r hr)
  exact TextRule.eq_of_changeOutline? hr' ▸
    ho.applyToOutline hblind (fun v m => replacement_widen (hrules r hr) v m) hself

/-- A count ends in a blank, and so does what stands in front of it. -/
theorem last_blank_of_topCount {body : Text} {m : Match}
    (hm : topCount.matchAt? none body = some m) :
    (∀ c, m.text.getLast? = some c → isBlank c = true) ∧
      ∀ c, (m.group 1).getLast? = some c → isBlank c = true := by
  have hof := isOf_of_matchAt? hm
  have hblank : ∀ {p : Pattern} {u : Text}, p.endsIn (· == .blank) = true → p.Spells u →
      ∀ c, u.getLast? = some c → isBlank c = true := by
    intro p u hp hu c hc
    obtain ⟨k, hk, hhas⟩ := last_of_endsIn hp hu hc
    obtain rfl := eq_of_beq hk
    exact hhas
  refine ⟨hblank (by decide) hof.spells, ?_⟩
  rw [Match.group]
  cases hg : m.group? 1 with
  | none => exact fun c hc => absurd hc (by simp)
  | some u =>
    obtain ⟨q, hq, -, hspells⟩ := hof.groups _ (Match.mem_groups_of_group? hg)
    have hgroups : ∀ x ∈ topCount.groups, x.1 = 1 → x.2.endsIn (· == .blank) = true := by decide
    exact hblank (hgroups _ hq rfl) hspells

/-- The number of a count. -/
theorem digits_of_topCount {body : Text} {m : Match} (hm : topCount.matchAt? none body = some m) :
    m.group 2 ≠ [] ∧ ∀ c ∈ m.group 2, isDecimal c = true := by
  obtain ⟨q, hq, hspells⟩ := spells_group (n := 2) (by decide) hm
  have hdigits : ∀ x ∈ topCount.groups, x.1 = 2 → x.2 = run1 .decimal := by decide
  obtain rfl := hdigits _ hq rfl
  refine ⟨ne_nil_of_takesSome rfl hspells, fun c hc => ?_⟩
  obtain ⟨_, r, hr, ⟨x, rfl, hx⟩, hrun⟩ := hspells
  rw [hr] at hc
  exact (List.mem_cons.1 hc).elim (fun h => h ▸ hx) (hrun c)

/-- Without the count the columns end as they did. -/
theorem lastWord_counted {w body : Text} {m : Match} (hw : Text.IsWord w)
    (hm : topCount.matchAt? none body = some m) (hb : Text.LastWord w body) :
    (Text.words (m.group 1 ++ m.after)).getLast? = some w := by
  have hof := isOf_of_matchAt? hm
  obtain ⟨htext, hgroup⟩ := last_blank_of_topCount hm
  have hwords := hb.words hw
  rw [← hof.text_append, Text.words_append_of_last htext, List.getLast?_append] at hwords
  rw [Text.words_append_of_last hgroup, List.getLast?_append]
  cases hafter : (Text.words m.after).getLast? with
  | some v => rwa [hafter] at hwords
  | none =>
    -- the text would end in a blank, the last one of the match or one behind it
    obtain ⟨c, hc, hnot⟩ := hb.last_not_blank hw
    rw [← hof.text_append, List.getLast?_append] at hc
    have hall := Text.words_eq_nil_iff.1 (List.getLast?_eq_none_iff.1 hafter)
    have hyes : isBlank c = true := by
      cases hlast : m.after.getLast? with
      | none => exact htext c (by rwa [hlast] at hc)
      | some d =>
        rw [hlast, Option.some_or] at hc
        exact hall c (List.mem_of_getLast? (hlast.trans hc))
    rw [hnot] at hyes
    exact absurd hyes Bool.false_ne_true

/-- The columns without a count are the last clause if they were it before. -/
theorem exists_selected {w body : Text} {m : Match} {o : Outline} (hw : Text.IsWord w)
    (ho : o.Trails w) (hbody : o.body? .select = some body)
    (hm : topCount.matchAt? none body = some m) :
    ∃ cs k b, (o.edit .select fun _ => m.group 1 ++ m.after).clauses = cs ++ [⟨k, b⟩] ∧
      (Text.words b).getLast? = some w := by
  obtain ⟨cs, k, b, hcs, hb⟩ := ho
  rw [edit, hcs, editClauses_concat]
  split
  · exact ⟨_, k, b, rfl, hb.words hw⟩
  · next hnone =>
    cases hk : k == .select with
    | false => exact ⟨cs, k, b, rfl, hb.words hw⟩
    | true =>
      have hfind : cs.find? (fun c => c.kind == .select) = none := by
        simpa [List.find?_eq_none] using hnone
      rw [body?, hcs, List.find?_append, hfind, Option.none_or,
        List.find?_cons_of_pos (by exact hk), Option.map_some, Option.some.injEq] at hbody
      exact ⟨cs, .select, _, rfl, lastWord_counted hw hm (hbody ▸ hb)⟩

/-- Behind the last clause a count puts nothing but a limit. -/
theorem trails_topToLimit? {w : Text} {o o' : Outline} (hw : Text.IsWord w) (ho : o.Trails w)
    (h : topToLimit? o = some o') :
    ∃ cs k b, (Text.words b).getLast? = some w ∧
      (o'.clauses = cs ++ [⟨k, b⟩] ∨ ∃ n, (n ≠ [] ∧ ∀ c ∈ n, isDecimal c = true) ∧
        o'.clauses = cs ++ [⟨k, b⟩] ++ [⟨.limit, n⟩]) := by
  unfold topToLimit? at h
  split at h
  · exact absurd h (by simp)
  · next body hbody =>
    split at h
    · exact absurd h (by simp)
    · next m hm =>
      obtain ⟨cs, k, b, hcs, hb⟩ := exists_selected hw ho hbody hm
      obtain rfl := Option.some.inj h
      refine ⟨cs, k, b, hb, ?_⟩
      split
      · exact Or.inl hcs
      · next hlimit =>
        refine Or.inr ⟨m.group 2, digits_of_topCount hm, ?_⟩
        rw [Outline.set, has_edit, if_neg hlimit, hcs]
        exact insertClause_of_last fun c _ => c.kind.rank_le_limit

/-- What is written last: the word, and the count behind it if there is one. -/
theorem exists_wordsOf_runShape {w : Text} {g : Progress Outline} (hw : Text.IsWord w)
    (hg : g.state.Trails w) :
    ∃ ws tail, wordsOf (pipeline.runShape g).state.clauses = ws ++ w :: tail ∧
      (tail = [] ∨ ∃ n, (n ≠ [] ∧ ∀ c ∈ n, isDecimal c = true) ∧ tail = ["LIMIT".toList, n]) := by
  have hrun : pipeline.runShape g = g.step "sybase.top_to_limit" topToLimit? := rfl
  rw [hrun, Progress.step]
  cases hshape : topToLimit? g.state with
  | none =>
    obtain ⟨cs, k, b, hcs, hb⟩ := hg
    obtain ⟨ws, hws⟩ := exists_wordsOf cs k (hb.words hw)
    exact ⟨ws, [], by simpa [hcs] using hws, Or.inl rfl⟩
  | some o =>
    obtain ⟨cs, k, b, hb, hcs⟩ := trails_topToLimit? hw hg hshape
    obtain ⟨ws, hws⟩ := exists_wordsOf cs k hb
    rcases hcs with hcs | ⟨n, hn, hcs⟩
    · exact ⟨ws, [], by simpa [hcs] using hws, Or.inl rfl⟩
    · have hlimit : wordsOf [⟨.limit, n⟩] = ["LIMIT".toList, n] := by
        have hnumber : Text.IsWord n := ⟨hn.1, fun c hc =>
          isBlank_of_isIdentifierChar (isIdentifierChar_of_isDecimal (hn.2 c hc))⟩
        rw [wordsOf, List.flatMap_singleton, words_writeClause (by simp),
          Text.words_of_isWord hnumber]
        rfl
      refine ⟨ws, ["LIMIT".toList, n], ?_, Or.inr ⟨n, hn, rfl⟩⟩
      simp only [hcs]
      rw [wordsOf_append, hws, hlimit, List.append_assoc, List.singleton_append]

/-- **A word behind a statement stays.** The rules for Sybase leave a separator behind an accepted
statement where it is, the last word of what they return but for the count of a `LIMIT`. The rule
for separators finds nothing. -/
theorem words_apply {b x : Text} (hx : b = x ++ ' ' :: "GO") (hb : Statement.IsBody b)
    (hacc : Statement.Accepted (b ++ [';'])) :
    "sybase.go_separators".toList ∈ (pipeline.apply (b ++ [';'])).missed ∧
      ∃ ws tail, (pipeline.apply (b ++ [';'])).text
          = Text.join [' '] (ws ++ "GO".toList :: tail) ++ [';'] ∧
        (tail = [] ∨ ∃ n, (n ≠ [] ∧ ∀ c ∈ n, isDecimal c = true) ∧ tail = ["LIMIT".toList, n]) := by
  have hlexical := keepsEnd.runLexical hb hacc
  constructor
  · have hmissed : "sybase.go_separators".toList ∈
        (pipeline.runLexical (b ++ [';'])).missed := by
      have hname : "sybase.go_separators".toList ∈ pipeline.lexical.map TextRule.name := by decide
      rwa [hlexical]
    exact (pipeline.missed_runLexical _).subset hmissed
  · have hscan : (Pipeline.outlined (pipeline.runLexical (b ++ [';']))).state.Trails "GO" := by
      obtain ⟨cs, k, last, hcs, hlast⟩ :=
        exists_last_clause (w := "GO") (by decide) (by decide +kernel) x
      refine ⟨cs, k, last, ?_, hlast⟩
      rw [Pipeline.outlined, hlexical, ← hcs, ← hx]
      exact congrArg Outline.clauses (scan_isBody_semicolon hb)
    have hbefore : (pipeline.beforeShape (b ++ [';'])).state.Trails "GO" :=
      trails_runOnClauses (fun r hr => List.mem_append_right _ hr)
        (trails_runOnClauses (fun r hr => List.mem_append_left _ hr) hscan)
    obtain ⟨ws, tail, hwords, htail⟩ :=
      exists_wordsOf_runShape ⟨by decide, by decide⟩ hbefore
    refine ⟨ws, tail, ?_, htail⟩
    have hterminated := (keepsEnd.clean_outline hb hacc).2
    rw [Pipeline.outline] at hterminated
    rw [Pipeline.apply, Pipeline.outline, render_eq, hterminated, written_eq, if_pos rfl, ← wordsOf,
      hwords]

end Sybase

end SqlScribe
