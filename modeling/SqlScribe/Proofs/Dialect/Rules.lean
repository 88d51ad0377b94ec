import SqlScribe.Proofs.Dialect.Terminator

/-!
# The rules of the dialects and semicolons

The rules of both dialects one by one: the lexical ones find nothing in an accepted
normal form, and the others write no semicolon of their own. Main statements:
`Hive.keepsEnd` and `Sybase.keepsEnd`.
-/

namespace SqlScribe

/-! ## Lexical rules -/

namespace TextRule

/-- A rule whose matches all begin with `w` leaves a text without `w` alone. -/
theorem applyTo_eq_self_of_starts {r : TextRule} {w t : Text}
    (hr : ∀ u, r.pattern.Spells u → w <+: u) (hw : ¬ w <:+: t) : r.applyTo t = t := by
  refine Pattern.replaceAll_eq_self _ fun v s ht => ?_
  cases hm : r.pattern.matchAt? v.getLast? s with
  | none => rfl
  | some m =>
    have hof := Pattern.isOf_of_matchAt? hm
    obtain ⟨x, hx⟩ := hr m.text hof.spells
    exact absurd ⟨v, x ++ m.after, by rw [ht, ← hof.text_append, ← hx]; simp⟩ hw

end TextRule

namespace Pattern

theorem prefix_of_spells_literal_seq {w u : Text} {q : Pattern}
    (h : (seq (literal w) q).Spells u) : w <+: u := by
  obtain ⟨v, r, rfl, hv, -⟩ := h
  exact ⟨r, by rw [spells_literal.1 hv]⟩

theorem prefix_of_spells_literal_seq_seq {w u : Text} {q r : Pattern}
    (h : (seq (seq (literal w) q) r).Spells u) : w <+: u := by
  obtain ⟨v, x, rfl, hv, -⟩ := h
  exact (prefix_of_spells_literal_seq hv).trans (List.prefix_append _ _)

/-- The letter `g` has no form beyond ASCII. -/
theorem lowerOf_eq_of_simpleFold {x : Char} (h : simpleFold x = 'g') : lowerOf x = ['g'] := by
  have hl : x.toLower = 'g' := by
    unfold simpleFold at h
    split at h
    · exact absurd h (by decide)
    · split at h
      · exact absurd h (by decide)
      · exact h
  rw [lowerOf_of_ascii (toNat_lt_of_toLower hl (by decide)), hl]

end Pattern

open Pattern in
/-- A separator is written with blanks in front, if any, and a form of the letter `g`. -/
theorem spells_goSeparators {u : Text}
    (h : (anchor .lineStart ++ blanks ++ letters "GO" ++ many .blank
      ++ anchor .lineEnd : Pattern).Spells u) :
    ∃ bl x y, u = bl ++ x :: y ∧ (∀ c ∈ bl, isBlank c = true) ∧ simpleFold x = 'g' := by
  obtain ⟨w, e, rfl, ⟨v, z, rfl, ⟨a, go, rfl, ⟨n, bl, rfl, rfl, hbl⟩, hgo⟩, -⟩, -⟩ := h
  obtain ⟨g, o, rfl, ⟨x, rfl, hx⟩, -⟩ := hgo
  rw [CharClass.has, beq_iff_eq] at hx
  exact ⟨bl, x, o ++ z ++ e, by simp, hbl, hx.symm⟩

open Pattern in
/-- A separator stands at the start of a line, and the one line of an accepted normal form
begins with `select`. -/
theorem goSeparators_idle {r : TextRule} {b : Text} (hb : Statement.IsBody b)
    (hacc : Statement.Accepted (b ++ [';']))
    (hr : r.pattern = anchor .lineStart ++ blanks ++ letters "GO" ++ many .blank
      ++ anchor .lineEnd) : r.applyTo (b ++ [';']) = b ++ [';'] := by
  obtain ⟨c, rest, y, htrim, -, hc⟩ := Statement.head_of_accepted hacc
  have hspaced := Statement.singleSpaced_body_semicolon hb
  rw [hspaced.trim_eq_self] at htrim
  refine replaceAll_eq_self _ fun v s ht => ?_
  cases hm : r.pattern.matchAt? v.getLast? s with
  | none => rfl
  | some m =>
    exfalso
    have hof := isOf_of_matchAt? hm
    rw [hr] at hof
    -- the place of the match is the start of the text, which has no line breaks
    have hline := hof.holds .lineStart rfl
    have hv : v = [] := by
      rcases List.eq_nil_or_concat v with hv | ⟨v', d, rfl⟩
      · exact hv
      · rw [List.concat_eq_append, List.getLast?_concat] at hline
        obtain rfl : d = '\n' := by simpa [Anchor.holds] using hline
        exact absurd (hspaced.only_spaces '\n' (by rw [ht]; simp) (by decide)) (by decide)
    subst hv
    rw [List.nil_append] at ht
    obtain ⟨bl, x, y, htext, hbl, hx⟩ := spells_goSeparators hof.spells
    have hs : s = bl ++ x :: (y ++ m.after) := by
      rw [← hof.text_append, htext, List.append_assoc, List.cons_append]
    rw [htrim] at ht
    rw [← ht] at hs
    cases bl with
    | nil =>
      obtain ⟨rfl, -⟩ := List.cons.inj hs
      rw [lowerOf_eq_of_simpleFold hx] at hc
      exact absurd (List.cons.inj hc).1 (by decide)
    | cons d bl =>
      obtain ⟨rfl, -⟩ := List.cons.inj hs
      have hsp := hspaced.only_spaces c (by rw [htrim]; simp) (hbl c List.mem_cons_self)
      exact hspaced.head_ne (by rw [htrim, hsp]; rfl)

/-! ## Arguments -/

namespace Text

theorem mem_of_mem_cutUnquoted {quoted : Bool} {t s : Text} (hs : s ∈ cutUnquoted quoted t)
    {c : Char} (hc : c ∈ s) : c ∈ t := by
  induction t generalizing quoted s with
  | nil =>
    rw [cutUnquoted, List.mem_singleton] at hs
    exact absurd hc (by simp [hs])
  | cons d t ih =>
    rw [cutUnquoted] at hs
    split at hs
    · rcases List.mem_cons.1 hs with rfl | hs
      · exact absurd hc List.not_mem_nil
      · exact List.mem_cons_of_mem _ (ih hs hc)
    · split at hs
      · obtain rfl := List.mem_singleton.1 hs
        rw [List.mem_singleton.1 hc]
        exact List.mem_cons_self
      · next s' ss hcut =>
        rcases List.mem_cons.1 hs with rfl | hs
        · rcases List.mem_cons.1 hc with rfl | hc
          · exact List.mem_cons_self
          · exact List.mem_cons_of_mem _ (ih (hcut ▸ List.mem_cons_self) hc)
        · exact List.mem_cons_of_mem _ (ih (hcut ▸ List.mem_cons_of_mem _ hs) hc)

theorem mem_of_mem_arguments {t a : Text} (ha : a ∈ arguments t) {c : Char} (hc : c ∈ a) :
    c ∈ t := by
  obtain ⟨s, hs, rfl⟩ := List.mem_map.1 ha
  exact mem_of_mem_cutUnquoted hs (mem_of_mem_trim hc)

end Text

/-! ## Hive -/

namespace Hive

theorem semicolon_not_mem_concat {m : Match} {p : Pattern} {before : Option Char} {s : Text}
    (hm : m.IsOf p before s) (h : ';' ∉ m.text) : ';' ∉ concat m := by
  rw [concat]
  split
  · exact h
  · simp only [List.mem_append, not_or]
    refine ⟨⟨by decide, fun hc => ?_⟩, by decide⟩
    rcases Text.mem_join hc with hc | ⟨a, ha, hc⟩
    · exact absurd hc (by decide)
    · exact h (hm.mem_text_of_mem_group (Text.mem_of_mem_arguments ha hc))

theorem semicolon_not_mem_partFormat (part : Text) : ';' ∉ partFormat part := by
  rw [partFormat]
  split
  · decide
  · split <;> decide

theorem semicolon_not_mem_datePart {m : Match} {p : Pattern} {before : Option Char} {s : Text}
    (hm : m.IsOf p before s) (h : ';' ∉ m.text) : ';' ∉ datePart m := by
  have hg : ';' ∉ m.group 2 := fun hc => h (hm.mem_text_of_mem_group hc)
  unfold datePart
  simp only [List.mem_append, not_or]
  exact ⟨⟨⟨⟨by decide, semicolon_not_mem_partFormat _⟩, by decide⟩, hg⟩, by decide⟩

theorem keepsEnd : pipeline.KeepsEnd where
  lexical := by
    intro r hr b hb hacc
    simp only [pipeline, List.mem_cons, List.not_mem_nil, or_false] at hr
    rcases hr with rfl | rfl
    · exact TextRule.applyTo_eq_self_of_starts
        (fun u hu => Pattern.prefix_of_spells_literal_seq hu)
        (Statement.not_infix_of_accepted hacc (by decide))
    · exact TextRule.applyTo_eq_self_of_starts
        (fun u hu => Pattern.prefix_of_spells_literal_seq_seq hu)
        (Statement.not_infix_of_accepted hacc (by decide))
  types := by
    intro r hr
    simp only [pipeline, List.mem_cons, List.not_mem_nil, or_false] at hr
    rcases hr with rfl | rfl | rfl <;> exact TextRule.avoids_const (by decide) _ _
  functions := by
    intro r hr
    simp only [pipeline, List.mem_cons, List.not_mem_nil, or_false] at hr
    rcases hr with rfl | rfl | rfl | rfl | rfl | rfl | rfl
    · exact fun m before s hm h => semicolon_not_mem_concat hm h
    · exact TextRule.avoids_const (by decide) _ _
    · exact TextRule.avoids_const (by decide) _ _
    · intro m before s hm h
      have hg : ';' ∉ m.group 1 := fun hc => h (hm.mem_text_of_mem_group hc)
      simp only [List.mem_append, not_or]
      exact ⟨⟨by decide, hg⟩, by decide⟩
    · intro m before s hm h
      have hg : ';' ∉ m.group 1 := fun hc => h (hm.mem_text_of_mem_group hc)
      show ';' ∉ unixTimestamp m
      rw [unixTimestamp]
      split
      · decide
      · simp only [List.mem_append, not_or]
        exact ⟨⟨by decide, hg⟩, by decide⟩
    · exact fun m before s hm h => semicolon_not_mem_datePart hm h
    · exact fun m before s hm h hc => h (hm.mem_text_of_mem_group hc)
  shape := by
    intro r hr
    exact absurd hr List.not_mem_nil

end Hive

/-! ## Sybase -/

namespace Sybase

theorem semicolon_not_mem_partFormat (part : Text) : ';' ∉ partFormat part := by
  rw [partFormat]
  repeat' split
  all_goals decide

theorem semicolon_not_mem_datePart {m : Match} {p : Pattern} {before : Option Char} {s : Text}
    (hm : m.IsOf p before s) (h : ';' ∉ m.text) : ';' ∉ datePart m := by
  have hg : ';' ∉ m.group 2 := fun hc => h (hm.mem_text_of_mem_group hc)
  unfold datePart
  simp only [List.mem_append, not_or]
  exact ⟨⟨⟨⟨by decide, semicolon_not_mem_partFormat _⟩, by decide⟩, hg⟩, by decide⟩

/-- A match of the count takes from the columns and gives to the limit. -/
theorem avoids_topToLimit? {x : Char} {o o' : Outline} (h : topToLimit? o = some o')
    (ho : o.Avoids x) : o'.Avoids x ∧ o'.terminated = o.terminated := by
  unfold topToLimit? at h
  split at h
  · exact absurd h (by simp)
  · next body hbody =>
    have hx := ho.body hbody
    split at h
    · exact absurd h (by simp)
    · next m hm =>
      have hof := Pattern.isOf_of_matchAt? hm
      have hmem : ∀ n, x ∉ m.group n := fun n hc =>
        hx (hof.mem_of_mem_text (hof.mem_text_of_mem_group hc))
      have hafter : x ∉ m.after := fun hc =>
        hx (hof.text_append ▸ List.mem_append_right _ hc)
      have hsel := ho.edit .select (f := fun _ => m.group 1 ++ m.after) fun _ => by
        rw [List.mem_append, not_or]
        exact ⟨hmem 1, hafter⟩
      rw [Option.some.injEq] at h
      split at h
      · exact h ▸ ⟨hsel, rfl⟩
      · exact h ▸ ⟨hsel.set .limit (hmem 2), Outline.terminated_set _ _ _⟩

theorem keepsEnd : pipeline.KeepsEnd where
  lexical := by
    intro r hr b hb hacc
    simp only [pipeline, List.mem_cons, List.not_mem_nil, or_false] at hr
    rcases hr with rfl | rfl | rfl
    · exact TextRule.applyTo_eq_self_of_starts
        (fun u hu => Pattern.prefix_of_spells_literal_seq hu)
        (Statement.not_infix_of_accepted hacc (by decide))
    · exact TextRule.applyTo_eq_self_of_starts
        (fun u hu => Pattern.prefix_of_spells_literal_seq_seq hu)
        (Statement.not_infix_of_accepted hacc (by decide))
    · exact goSeparators_idle hb hacc rfl
  types := by
    intro r hr
    simp only [pipeline, List.mem_cons, List.not_mem_nil, or_false] at hr
    rcases hr with rfl | rfl | rfl | rfl | rfl
    · exact TextRule.avoids_const (by decide) _ _
    · exact TextRule.avoids_const (by decide) _ _
    · exact TextRule.avoids_const (by decide) _ _
    · exact TextRule.avoids_const (by decide) _ _
    · intro m before s hm h
      show ';' ∉ temporalType m
      rw [temporalType]
      split
      · exact h
      · decide
  functions := by
    intro r hr
    simp only [pipeline, List.mem_cons, List.not_mem_nil, or_false] at hr
    rcases hr with rfl | rfl | rfl | rfl | rfl | rfl | rfl | rfl | rfl | rfl | rfl
    · exact TextRule.avoids_const (by decide) _ _
    · exact TextRule.avoids_const (by decide) _ _
    · exact fun m before s hm h => semicolon_not_mem_datePart hm h
    · exact TextRule.avoids_const (by decide) _ _
    · exact TextRule.avoids_const (by decide) _ _
    · intro m before s hm h
      have hg : ∀ n, ';' ∉ m.group n := fun n hc => h (hm.mem_text_of_mem_group hc)
      simp only [List.mem_append, not_or]
      exact ⟨⟨⟨⟨by decide, hg 2⟩, by decide⟩, hg 1⟩, by decide⟩
    · intro m before s hm h
      have hg : ∀ n, ';' ∉ m.group n := fun n hc => h (hm.mem_text_of_mem_group hc)
      simp only [List.mem_append, not_or]
      exact ⟨⟨⟨⟨by decide, hg 1⟩, by decide⟩, hg 2⟩, by decide⟩
    · intro m before s hm h
      have hg : ∀ n, ';' ∉ m.group n := fun n hc => h (hm.mem_text_of_mem_group hc)
      simp only [List.mem_append, not_or]
      exact ⟨⟨⟨⟨by decide, hg 1⟩, by decide⟩, hg 2⟩, by decide⟩
    · exact TextRule.avoids_const (by decide) _ _
    · exact TextRule.avoids_const (by decide) _ _
    · exact fun m before s hm h hc => h (hm.mem_text_of_mem_group hc)
  shape := by
    intro r hr o o' h ho
    simp only [pipeline, List.mem_singleton] at hr
    subst hr
    exact avoids_topToLimit? h ho

end Sybase

/-- Both dialects that are converted keep the end of a statement. -/
theorem Dialect.keepsEnd {d : Dialect} {p : Pipeline} (h : d.pipeline? = some p) : p.KeepsEnd := by
  cases d with
  | canonical => exact absurd h (by simp [Dialect.pipeline?])
  | hive => exact Option.some.inj h ▸ Hive.keepsEnd
  | sybase => exact Option.some.inj h ▸ Sybase.keepsEnd

end SqlScribe
