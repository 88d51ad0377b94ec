import SqlScribe.Dialect.Canonical
import SqlScribe.Proofs.Dialect.Idle

/-!
# Literals in both dialects

The rules of both dialects do not look whether they are in a literal: a type that is named in
one is renamed. They do not reach from one literal into another or out of one, though, as long
as no literal holds a mark that rules look for. Main statements:

* `Hive.heeds`, `Sybase.heeds`: all rules of both dialects heed literals in this sense;
* `literals_kept`: when the literals of a statement are left as they are;
* `not_literals_kept`: a literal that names a type is changed.
-/

namespace SqlScribe

open Pattern

/-! ## Matches that hold what their groups do not -/

namespace Match.IsOf

variable {m : Match} {p : Pattern} {b : Option Char} {t : Text}

theorem not_mem_group (h : m.IsOf p b t) {n : Nat} {c : Char}
    (hc : ∀ q, (n, q) ∈ p.groups → ∀ u, q.Spells u → c ∉ u) : c ∉ m.group n := by
  rw [Match.group]
  cases hg : m.group? n with
  | none => exact List.not_mem_nil
  | some u =>
    obtain ⟨q, hq, -, hu⟩ := h.groups _ (Match.mem_groups_of_group? hg)
    exact hc q hq u hu

/-- A group that lacks a character of the match is shorter. -/
theorem length_group_lt (h : m.IsOf p b t) {n : Nat} {c : Char} (hmem : c ∈ m.text)
    (hc : c ∉ m.group n) : (m.group n).length < m.text.length := by
  have hsub := h.group_infix n
  refine Nat.lt_of_le_of_ne hsub.length_le fun hlength => hc ?_
  rw [hsub.eq_of_length hlength]
  exact hmem

end Match.IsOf

namespace Pattern

theorem mem_of_spells_seq_literal {q : Pattern} {c : Char} {u : Text}
    (h : (seq q (literal [c])).Spells u) : c ∈ u := by
  obtain ⟨v, w, rfl, -, hw⟩ := h
  rw [spells_literal.1 hw]
  simp

theorem not_mem_of_spells_run {c : Char} {u : Text}
    (h : (run (.other (.among [c]))).Spells u) : c ∉ u := by
  intro hc
  have hhas := h c hc
  simp [CharClass.has] at hhas

theorem not_mem_of_spells_run1 {c : Char} {u : Text}
    (h : (run1 (.other (.among [c]))).Spells u) : c ∉ u := by
  obtain ⟨v, w, rfl, ⟨x, rfl, hx⟩, hw⟩ := h
  rw [List.mem_append, not_or, List.mem_singleton]
  refine ⟨?_, not_mem_of_spells_run hw⟩
  rintro rfl
  simp [CharClass.has] at hx

/-- A match in a literal alone holds only its characters, and no parenthesis if these are
plain. -/
theorem parenthesis_not_mem_of_hit {p : Pattern} {w : Text} (hw : ∀ c ∈ w, c ∉ ruleMarks)
    {m : Match} (h : .hit m ∈ pieces p (Text.quote w)) : '(' ∉ m.text := by
  obtain ⟨v, s, hs, hm⟩ := matchAt?_of_mem_pieces h
  intro hc
  have hmem : '(' ∈ Text.quote w :=
    hs ▸ List.mem_append_right v ((isOf_of_matchAt? hm).mem_of_mem_text hc)
  simp only [Text.quote, List.mem_cons, List.mem_append, List.not_mem_nil, or_false] at hmem
  rcases hmem with h | h | h
  · exact absurd h (by decide)
  · exact hw _ h (by decide)
  · exact absurd h (by decide)

theorem prefix_of_five (a b c d e : Text) : a <+: a ++ b ++ c ++ d ++ e := by
  simp only [List.append_assoc]
  exact List.prefix_append _ _

/-- Nothing is shorter than any match. -/
theorem shrinks_nil (p : Pattern) : Shrinks p fun _ => [] :=
  fun _ _ _ hm => List.length_pos_of_ne_nil hm.text_ne

end Pattern

/-! ## Hive -/

namespace Hive

theorem shrinks_backticks : Shrinks
    (literal "\x60" ++ group 1 (run (.other (.among ['\x60']))) ++ literal "\x60") unwrap := by
  intro m b t hm
  refine hm.length_group_lt (mem_of_spells_seq_literal hm.spells) (hm.not_mem_group ?_)
  intro q hq u hu
  have hgroups : (1, q) ∈ [(1, run (.other (.among ['\x60'])))] := hq
  obtain ⟨-, rfl⟩ := Prod.mk.inj (List.mem_singleton.1 hgroups)
  exact not_mem_of_spells_run hu

/-- The call that the arguments are taken from. -/
def concatPattern : Pattern := opening "concat" ++ group 1 (run noParen) ++ literal ")"

/-- A call stays as it is when it has fewer than two arguments. -/
theorem concat_cases {m : Match} {b : Option Char} {t : Text} (hm : m.IsOf concatPattern b t) :
    ((Text.arguments (m.group 1)).length < 2 ∧ concat m = m.text) ∨
      (¬ (Text.arguments (m.group 1)).length < 2 ∧ Text.Diverges (concat m) m.text) := by
  rw [concat]
  split
  · next hfew => exact Or.inl ⟨hfew, rfl⟩
  · next hmany =>
    refine Or.inr ⟨hmany, ?_⟩
    exact ((diverges_of_clashes (w := ['(']) (by decide) hm.spells).widen ⟨_, rfl⟩).symm

/-- A list has as many arguments in the muted text. -/
theorem length_cutUnquoted {quoted : Bool} {t u : Text} (h : Veiled t u) :
    (Text.cutUnquoted quoted u).length = (Text.cutUnquoted quoted t).length := by
  induction h generalizing quoted with
  | nil => rfl
  | @cons c d t u hcd _ ih =>
    rw [Text.cutUnquoted, Text.cutUnquoted, hcd.beq_eq (x := ',') (by decide),
      hcd.beq_eq (x := '\'') (by decide)]
    split
    · rw [List.length_cons, List.length_cons, ih]
    · have hrest := @ih (if c == '\'' then !quoted else quoted)
      revert hrest
      generalize Text.cutUnquoted (if c == '\'' then !quoted else quoted) t = ss
      generalize Text.cutUnquoted (if c == '\'' then !quoted else quoted) u = ss'
      intro hrest
      cases ss <;> cases ss' <;> simp_all

theorem heeds_concat : (TextRule.mk "hive.concat" concatPattern concat).Heeds := by
  refine TextRule.heeds_of_steady (by decide) (by decide) (by decide)
    (by decide) (fun m b t hm => ?_) (fun m m' b t hm' halike heq => ?_)
    fun w hw _ m hm => ?_
  · exact (concat_cases hm).imp And.right And.right
  · have hlength : (Text.arguments (m'.group 1)).length = (Text.arguments (m.group 1)).length := by
      rw [Text.arguments, Text.arguments, List.length_map, List.length_map,
        length_cutUnquoted (halike.group 1)]
    rcases concat_cases hm' with ⟨hfew, -⟩ | ⟨-, hdiverges⟩
    · rw [hlength] at hfew
      exact if_pos hfew
    · exact absurd heq hdiverges.ne
  · obtain ⟨b, t, hof⟩ := isOf_of_hit hm
    obtain ⟨v, x, htext, ⟨y, z, rfl, hopening, -⟩, -⟩ := hof.spells
    refine parenthesis_not_mem_of_hit hw hm ?_
    rw [htext]
    exact List.mem_append_left _ (List.mem_append_left _ (mem_of_spells_seq_literal hopening))

theorem prefix_unixTimestamp (m : Match) : "strftime('%s', ".toList <+: unixTimestamp m := by
  rw [unixTimestamp]
  split
  · decide
  · exact (List.prefix_append _ _).trans (List.prefix_append _ _)

theorem prefix_datePart (m : Match) : "strftime('".toList <+: datePart m :=
  prefix_of_five _ _ _ _ _

theorem heeds : pipeline.Heeds where
  lexical := by
    intro r hr
    simp only [pipeline, List.mem_cons, List.not_mem_nil, or_false] at hr
    rcases hr with rfl | rfl <;>
      exact TextRule.heeds_of_shrinks (by decide) (shrinks_nil _)
  types := by
    intro r hr
    simp only [pipeline, List.mem_cons, List.not_mem_nil, or_false] at hr
    rcases hr with rfl | rfl | rfl
    · exact TextRule.heeds_of_clashes "TEXT" (by decide) fun _ => List.prefix_rfl
    · exact TextRule.heeds_of_clashes "INTEGER" (by decide) fun _ => List.prefix_rfl
    · exact TextRule.heeds_of_clashes "REAL" (by decide) fun _ => List.prefix_rfl
  functions := by
    intro r hr
    simp only [pipeline, List.mem_cons, List.not_mem_nil, or_false] at hr
    rcases hr with rfl | rfl | rfl | rfl | rfl | rfl | rfl
    · exact heeds_concat
    · exact TextRule.heeds_of_clashes "group_concat(" (by decide) fun _ => List.prefix_rfl
    · exact TextRule.heeds_of_shrinks (by decide) (shrinks_nil _)
    · exact TextRule.heeds_of_clashes "datetime(" (by decide) fun _ =>
        (List.prefix_append _ _).trans (List.prefix_append _ _)
    · exact TextRule.heeds_of_clashes "strftime('%s', " (by decide) prefix_unixTimestamp
    · exact TextRule.heeds_of_clashes "strftime('" (by decide) prefix_datePart
    · exact TextRule.heeds_of_shrinks (by decide) shrinks_backticks
  shape := by
    intro r hr
    exact absurd hr List.not_mem_nil

end Hive

/-! ## Sybase -/

namespace Sybase

theorem shrinks_brackets : Shrinks
    (literal "[" ++ group 1 (run1 (.other (.among [']']))) ++ literal "]") fun m => m.group 1 := by
  intro m b t hm
  refine hm.length_group_lt (mem_of_spells_seq_literal hm.spells) (hm.not_mem_group ?_)
  intro q hq u hu
  have hgroups : (1, q) ∈ [(1, run1 (.other (.among [']'])))] := hq
  obtain ⟨-, rfl⟩ := Prod.mk.inj (List.mem_singleton.1 hgroups)
  exact not_mem_of_spells_run1 hu

/-- The name of a temporal type, and the parenthesis of a call. -/
def temporalPattern : Pattern :=
  wordOf ["SMALLDATETIME", "DATETIME", "TIMESTAMP", "DATE", "TIME"]
    ++ opt (group 1 (blanks ++ literal "("))

/-- A name stays as it is in front of a parenthesis. -/
theorem temporalType_cases {m : Match} {b : Option Char} {t : Text}
    (hm : m.IsOf temporalPattern b t) :
    (m.group? 1 ≠ none ∧ '(' ∈ m.text ∧ temporalType m = m.text) ∨
      (m.group? 1 = none ∧ Text.Diverges (temporalType m) m.text) := by
  cases hg : m.group? 1 with
  | none =>
    have htext : temporalType m = "TEXT".toList := by rw [temporalType, hg]
    refine Or.inr ⟨rfl, ?_⟩
    rw [htext]
    exact (diverges_of_clashes (by decide) hm.spells).symm
  | some u =>
    refine Or.inl ⟨by simp, ?_, by rw [temporalType, hg]⟩
    obtain ⟨q, hq, hsub, hu⟩ := hm.groups _ (Match.mem_groups_of_group? hg)
    have hgroups : (1, q) ∈ [(1, blanks ++ literal "(")] := hq
    obtain ⟨-, rfl⟩ := Prod.mk.inj (List.mem_singleton.1 hgroups)
    exact hsub.subset (mem_of_spells_seq_literal hu)

theorem heeds_temporalType :
    (TextRule.mk "sybase.temporal_types" temporalPattern temporalType).Heeds := by
  have hparts : Parts temporalPattern temporalType := fun m b t hm =>
    (temporalType_cases hm).imp (fun h => h.2.2) And.right
  refine TextRule.heeds_of_steady (by decide) (by decide) (by decide)
    (by decide) hparts (fun m m' b t hm' halike heq => ?_) fun w hw hsame m hm => ?_
  · rcases temporalType_cases hm' with ⟨hsome, -, -⟩ | ⟨-, hdiverges⟩
    · have hrel := halike.group? 1
      show temporalType m = m.text
      rw [temporalType]
      cases hg : m.group? 1 with
      | some u => rfl
      | none =>
        rw [hg] at hrel
        cases hg' : m'.group? 1 with
        | none => exact absurd hg' hsome
        | some u => rw [hg'] at hrel; cases hrel
    · exact absurd heq hdiverges.ne
  · obtain ⟨b, t, hof⟩ := isOf_of_hit hm
    rcases temporalType_cases hof with ⟨-, hmem, -⟩ | ⟨-, hdiverges⟩
    · exact parenthesis_not_mem_of_hit hw hm hmem
    · exact hdiverges.ne (hparts.eq_of_hit hsame hm)

theorem prefix_datePart (m : Match) : "strftime('".toList <+: datePart m :=
  prefix_of_five _ _ _ _ _

theorem topToLimit?_eq_none_iff {o : Outline} : topToLimit? o = none ↔
    ∀ body, o.body? .select = some body → topCount.matchAt? none body = none := by
  rw [topToLimit?]
  split
  · next hbody => simp [hbody]
  · next body hbody =>
    split
    · next hm => simp [hbody, hm]
    · next m hm => simp [hbody, hm]

/-- A count is found at the start of the columns only if it is in the muted text. -/
theorem topToLimit?_mute {o : Outline} (ho : ∀ c ∈ o.clauses, Text.PlainFrom none c.body)
    (h : topToLimit? o.mute = none) : topToLimit? o = none := by
  rw [topToLimit?_eq_none_iff] at h ⊢
  intro body hbody
  rw [Outline.body?, Option.map_eq_some_iff] at hbody
  obtain ⟨c, hc, rfl⟩ := hbody
  have hmuted : o.mute.body? .select = some c.body.mute := by
    have hkind : (fun c : Clause => c.kind == .select) ∘ Clause.mute
        = fun c : Clause => c.kind == .select := rfl
    rw [Outline.body?, Outline.mute, List.find?_map, hkind, hc]
    rfl
  exact matchAt?_eq_none_of_muteFrom (by decide) (by decide) (by simp)
    (ho c (List.mem_of_find?_eq_some hc)) (h _ hmuted)

theorem heeds : pipeline.Heeds where
  lexical := by
    intro r hr
    simp only [pipeline, List.mem_cons, List.not_mem_nil, or_false] at hr
    rcases hr with rfl | rfl | rfl <;>
      exact TextRule.heeds_of_shrinks (by decide +kernel) (shrinks_nil _)
  types := by
    intro r hr
    simp only [pipeline, List.mem_cons, List.not_mem_nil, or_false] at hr
    rcases hr with rfl | rfl | rfl | rfl | rfl
    · exact TextRule.heeds_of_clashes "TEXT" (by decide +kernel) fun _ => List.prefix_rfl
    · exact TextRule.heeds_of_clashes "BLOB" (by decide +kernel) fun _ => List.prefix_rfl
    · exact TextRule.heeds_of_clashes "INTEGER" (by decide +kernel) fun _ => List.prefix_rfl
    · exact TextRule.heeds_of_clashes "REAL" (by decide +kernel) fun _ => List.prefix_rfl
    · exact heeds_temporalType
  functions := by
    intro r hr
    simp only [pipeline, List.mem_cons, List.not_mem_nil, or_false] at hr
    rcases hr with rfl | rfl | rfl | rfl | rfl | rfl | rfl | rfl | rfl | rfl | rfl
    · exact TextRule.heeds_of_clashes "IFNULL(" (by decide +kernel) fun _ => List.prefix_rfl
    · exact TextRule.heeds_of_clashes "datetime('now')" (by decide +kernel) fun _ =>
        List.prefix_rfl
    · exact TextRule.heeds_of_clashes "strftime('" (by decide +kernel) prefix_datePart
    · exact TextRule.heeds_of_clashes "substr(" (by decide +kernel) fun _ => List.prefix_rfl
    · exact TextRule.heeds_of_clashes "length(" (by decide +kernel) fun _ => List.prefix_rfl
    · exact TextRule.heeds_of_clashes "instr(" (by decide +kernel) fun _ => prefix_of_five _ _ _ _ _
    · exact TextRule.heeds_of_clashes "substr(" (by decide +kernel) fun _ =>
        prefix_of_five _ _ _ _ _
    · exact TextRule.heeds_of_clashes "substr(" (by decide +kernel) fun _ =>
        prefix_of_five _ _ _ _ _
    · exact TextRule.heeds_of_clashes "0" (by decide +kernel) fun _ => List.prefix_rfl
    · exact TextRule.heeds_of_clashes "PRIMARY KEY AUTOINCREMENT" (by decide +kernel) fun _ =>
        List.prefix_rfl
    · exact TextRule.heeds_of_shrinks (by decide +kernel) shrinks_brackets
  shape := by
    intro r hr o ho h
    obtain rfl := List.mem_singleton.1 hr
    exact topToLimit?_mute ho h

end Sybase

/-- The rules of both dialects heed literals. -/
theorem Dialect.heeds {d : Dialect} {p : Pipeline} (h : d.pipeline? = some p) : p.Heeds := by
  cases d with
  | canonical => exact absurd h (by simp [Dialect.pipeline?])
  | hive => exact Option.some.inj h ▸ Hive.heeds
  | sybase => exact Option.some.inj h ▸ Sybase.heeds

/-- **When literals are left as they are.** Take a text of either dialect in which all
quotations are closed and no literal holds a mark that rules look for. If no rule contributes
to the text with its literals blanked out, nor to any of the literals by itself, then no rule
contributes to the text, and the literals of what the pipeline returns are those of the text
but for runs of blanks. Without the condition on marks a literal may end what begins in front
of it, as in `concat(x, 'a)', f(x))`. -/
theorem literals_kept {d : Dialect} {p : Pipeline} (hp : d.pipeline? = some p) {sql : Text}
    (hclosed : sql.Closed) (hplain : ∀ w ∈ sql.literals, ∀ c ∈ w, c ∉ ruleMarks)
    (halone : ∀ w ∈ sql.literals, (p.apply (Text.quote w)).applied = [])
    (hmute : (p.apply sql.mute).applied = []) :
    (p.apply sql).applied = [] ∧
      (p.apply sql).text.literals = sql.literals.map Text.squeeze := by
  obtain ⟨hidle, hliterals⟩ := (Dialect.heeds hp).keeps_literals hclosed hplain
    (fun w hw => Pipeline.applied_eq_nil_iff.1 (halone w hw)) (Pipeline.applied_eq_nil_iff.1 hmute)
  exact ⟨Pipeline.applied_eq_nil_iff.2 hidle, hliterals⟩

/-- The call of `date` is found and stays, and so does the name. -/
theorem literals_kept_name :
    (Sybase.pipeline.apply "SELECT date(hired) FROM t WHERE name = 'Ann  Lee';").applied = [] ∧
      (Sybase.pipeline.apply "SELECT date(hired) FROM t WHERE name = 'Ann  Lee';").text.literals
        = [Text.squeeze "Ann  Lee"] := by
  have hmarks : ("Ann  Lee".toList.all fun c => !ruleMarks.contains c) = true := by decide
  obtain ⟨hliterals, hclosed, halone, hmute⟩ :
      Text.literals "SELECT date(hired) FROM t WHERE name = 'Ann  Lee';" = ["Ann  Lee".toList] ∧
      Text.Closed "SELECT date(hired) FROM t WHERE name = 'Ann  Lee';" ∧
      (Sybase.pipeline.apply (Text.quote "Ann  Lee")).applied = [] ∧
      (Sybase.pipeline.apply (Text.mute
        "SELECT date(hired) FROM t WHERE name = 'Ann  Lee';")).applied
        = [] := by decide +kernel
  obtain ⟨hidle, hkept⟩ := literals_kept (d := .sybase) rfl hclosed
    (fun w hw c hc hmark => by
      rw [hliterals, List.mem_singleton] at hw
      subst hw
      simpa [hmark] using List.all_eq_true.1 hmarks c hc)
    (fun w hw => by
      rw [hliterals, List.mem_singleton] at hw
      exact hw ▸ halone)
    hmute
  exact ⟨hidle, hkept.trans (congrArg (List.map Text.squeeze) hliterals)⟩

/-- A type that is named in a literal is renamed, though nothing is with the literal blanked
out. -/
theorem not_literals_kept :
    (¬ ∀ sql : Text, sql.Closed → (Hive.pipeline.apply sql.mute).applied = [] →
      (Hive.pipeline.apply sql).applied = []) ∧
    ¬ ∀ sql : Text, sql.Closed → (Sybase.pipeline.apply sql.mute).applied = [] →
      (Sybase.pipeline.apply sql).applied = [] := by
  constructor
  · intro h
    obtain ⟨hclosed, hmute, hsome⟩ : Text.Closed "SELECT name FROM t WHERE kind = 'STRING'" ∧
        (Hive.pipeline.apply (Text.mute "SELECT name FROM t WHERE kind = 'STRING'")).applied = [] ∧
        (Hive.pipeline.apply "SELECT name FROM t WHERE kind = 'STRING'").applied ≠ [] := by
      decide +kernel
    exact hsome (h _ hclosed hmute)
  · intro h
    obtain ⟨hclosed, hmute, hsome⟩ : Text.Closed "SELECT name FROM t WHERE kind = 'CHAR'" ∧
        (Sybase.pipeline.apply (Text.mute "SELECT name FROM t WHERE kind = 'CHAR'")).applied = [] ∧
        (Sybase.pipeline.apply "SELECT name FROM t WHERE kind = 'CHAR'").applied ≠ [] := by
      decide +kernel
    exact hsome (h _ hclosed hmute)

end SqlScribe
