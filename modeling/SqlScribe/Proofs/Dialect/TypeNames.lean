import SqlScribe.Dialect.Canonical
import SqlScribe.Proofs.Dialect.Idle
import SqlScribe.Proofs.Pattern.WordOf

/-!
# Names of types

The rules for types look for the names of types wherever these stand as words, and cannot tell
whether a word names a type there or a column, a table or an alias. So no rule for types contributes
exactly when no body has such a name, and then the clauses stay as they are. Names of moments are
also names of functions and stay where they are called. Main statements:

* `TextRule.idle_edged_iff`, `Sybase.temporal_idle_iff`: when one rule leaves a text alone;
* `Pipeline.types_missed_iff`: when no rule for types is reported as applied;
* `Dialect.types_missed_iff_names`: the names that make one of them contribute.
-/

namespace SqlScribe

open Pattern

variable {t : Text}

/-! ## The names -/

/-- The names of types that Hive has and the canonical dialect has not. -/
def Hive.typeWords : List Text := ["STRING", "BIGINT", "DOUBLE"]

/-- The names of types that Sybase has and the canonical dialect has not. -/
def Sybase.typeWords : List Text := [
  "NVARCHAR", "VARCHAR", "NCHAR", "CHAR", "IMAGE", "VARBINARY", "BINARY", "SMALLINT", "TINYINT",
  "BIGINT", "SMALLMONEY", "MONEY", "NUMERIC", "DECIMAL", "FLOAT"]

/-- The names of types of moments in Sybase. -/
def Sybase.momentWords : List Text := ["SMALLDATETIME", "DATETIME", "TIMESTAMP", "DATE", "TIME"]

/-- A name of a type in Sybase that is two words. -/
def Sybase.IsDoublePrecision (g : Text) : Prop :=
  ∃ a e i, g = a ++ (e ++ i) ∧ SameLetters a "DOUBLE" ∧ IsGap e ∧ SameLetters i "PRECISION"

/-- The text is a name of a type of the dialect in front of `s`. Names of moments are names of
functions where they are called. -/
def Dialect.IsTypeName : Dialect → Text → Text → Prop
  | canonical, _, _ => False
  | hive, g, _ => ∃ n ∈ Hive.typeWords, SameLetters g n
  | sybase, g, s => (∃ n ∈ Sybase.typeWords, SameLetters g n) ∨ Sybase.IsDoublePrecision g ∨
      ((∃ n ∈ Sybase.momentWords, SameLetters g n) ∧ ¬ OpensCall s)

/-- One of the words stands alone in the text, in any case. -/
def HasWord (ws : List Text) (t : Text) : Prop := NamedIn (fun g _ => ∃ n ∈ ws, SameLetters g n) t

theorem hasWord_append {ws vs : List Text} :
    HasWord (ws ++ vs) t ↔ HasWord ws t ∨ HasWord vs t := by
  rw [HasWord, HasWord, HasWord, ← namedIn_or]
  simp only [List.mem_append, or_and_right, exists_or]

/-! ## Rules for words -/

/-- A rule for what stands alone leaves a text without such a thing alone, and no other one. -/
theorem TextRule.idle_edged_iff {r : TextRule} {q : Pattern}
    (hpattern : r.pattern = edge ++ q ++ edge) (htells : r.Tells) (hq : TakesAll q)
    (hwordy : q.IsWordy) (hsome : q.takesSome = true) :
    r.applyTo t = t ↔ ¬ NamedIn (fun g _ => q.Spells g) t := by
  rw [← no_hit_edged_iff hq hwordy hsome, ← hpattern]
  refine ⟨fun h => htells t h, fun h => ?_⟩
  exact replaceAll_eq_self_of_hits fun m hm => absurd hm (h m)

/-- All of the words are made of letters. -/
def AreLabels (ws : List Text) : Prop := ∀ w ∈ ws, w ≠ [] ∧ ∀ c ∈ w, isLabelChar c = true

instance (ws : List Text) : Decidable (AreLabels ws) := by
  unfold AreLabels
  infer_instance

theorem isWordy_oneOf {ws : List Text} (hws : AreLabels ws) : (oneOf (ws.map letters)).IsWordy :=
  isWordy_of_chars fun _ hg => isWordChar_of_spells_oneOf hws hg

theorem takesAll_words (ws : List Text) : TakesAll (oneOf (ws.map letters)) :=
  takesAll_oneOf (List.forall_mem_map.2 fun w _ => takesAll_letters w)

/-- A rule for words puts another word for them, and leaves a text where none stands alone. -/
theorem TextRule.idle_words_iff {name new : Text} {ws : List Text} (hws : AreLabels ws)
    (hsome : (oneOf (ws.map letters)).takesSome = true) (hclash : (wordOf ws).clashes new = true) :
    (⟨name, wordOf ws, fun _ => new⟩ : TextRule).applyTo t = t ↔ ¬ HasWord ws t := by
  have htells : (⟨name, wordOf ws, fun _ => new⟩ : TextRule).Tells :=
    tells_of_clashes new hclash fun _ => List.prefix_rfl
  rw [idle_edged_iff rfl htells (takesAll_words ws) (isWordy_oneOf hws) hsome]
  simp only [spells_oneOf_iff, HasWord]

/-! ## Names of two words -/

namespace Sybase

/-- The two words of a name and the blanks between them. -/
def doublePrecision : Pattern := letters "DOUBLE" ++ blanks1 ++ letters "PRECISION"

theorem spells_doublePrecision_iff {g : Text} : doublePrecision.Spells g ↔ IsDoublePrecision g := by
  constructor
  · rintro ⟨_, i, rfl, ⟨a, e, rfl, ha, he⟩, hi⟩
    exact ⟨a, e, i, List.append_assoc a e i, spells_letters.1 ha, spells_blanks1_iff.1 he,
      spells_letters.1 hi⟩
  · rintro ⟨a, e, i, rfl, ha, he, hi⟩
    exact ⟨a ++ e, i, (List.append_assoc a e i).symm, ⟨a, e, rfl, spells_letters.2 ha,
      spells_blanks1_iff.2 he⟩, spells_letters.2 hi⟩

theorem takesAll_doublePrecision : TakesAll doublePrecision := by
  have hhead : ∀ g, (letters "PRECISION").Spells g → ∃ x, g.head? = some x ∧
      CharClass.blank.has x = false := by
    intro g hg
    have hsame := spells_letters.1 hg
    obtain ⟨x, g, rfl⟩ := List.exists_cons_of_ne_nil (hsame.ne_nil (by decide))
    have hword := hsame.isWordChar (by decide) x List.mem_cons_self
    refine ⟨x, rfl, ?_⟩
    by_contra hblank
    rw [isWordChar_of_isBlank (by simpa [CharClass.has] using hblank)] at hword
    exact Bool.false_ne_true hword
  have hruns : TakesAll (one .blank ++ (run .blank ++ letters "PRECISION")) :=
    (takesAll_one _).seq (takesAll_run_seq (takesAll_letters _) hhead)
  exact TakesAll.assoc ((takesAll_letters _).seq hruns.assoc)

theorem isWordy_doublePrecision : doublePrecision.IsWordy := by
  intro g hg
  obtain ⟨a, e, i, rfl, ha, -, hi⟩ := spells_doublePrecision_iff.1 hg
  obtain ⟨x, a, rfl⟩ := List.exists_cons_of_ne_nil (ha.ne_nil (by decide))
  have hne := hi.ne_nil (by decide)
  refine ⟨⟨x, rfl, ha.isWordChar (by decide) x List.mem_cons_self⟩, i.getLast hne, ?_,
    hi.isWordChar (by decide) _ (List.getLast_mem hne)⟩
  rw [List.getLast?_append, List.getLast?_append, List.getLast?_eq_some_getLast hne, Option.some_or,
    Option.some_or]

/-- The words of the rule for real numbers. -/
def realWords : List Text := ["SMALLMONEY", "MONEY", "NUMERIC", "DECIMAL", "FLOAT"]

theorem real_idle_iff :
    (⟨"sybase.real_types", edge ++ alt doublePrecision (oneOf (realWords.map letters)) ++ edge,
      fun _ => "REAL"⟩ : TextRule).applyTo t = t ↔
      ¬ (HasWord realWords t ∨ NamedIn (fun g _ => IsDoublePrecision g) t) := by
  have hwords : AreLabels realWords := by decide
  have hwordy : (alt doublePrecision (oneOf (realWords.map letters))).IsWordy := by
    rintro g (hg | hg)
    · exact isWordy_doublePrecision g hg
    · exact isWordy_oneOf hwords g hg
  rw [TextRule.idle_edged_iff rfl
    (TextRule.tells_of_clashes "REAL" (by decide) fun _ => List.prefix_rfl)
    (takesAll_doublePrecision.alt (takesAll_words realWords)) hwordy (by decide), or_comm, HasWord,
    ← namedIn_or]
  simp only [Spells, spells_doublePrecision_iff, spells_oneOf_iff]

/-! ## Names of moments -/

/-- The pattern of the rule for moments. -/
def moments : Pattern := wordOf momentWords ++ opt (group 1 (blanks ++ literal "("))

theorem wordOf_takesSome : (wordOf momentWords).takesSome = true := by decide

/-- A way takes the whole word that stands there. -/
theorem mem_ways_moments {b : Option Char} {w : Text} {d : Cursor} :
    d ∈ ways (wordOf momentWords) ⟨b, w, []⟩ ↔ ∃ g s, w = g ++ s ∧
      (∃ n ∈ momentWords, SameLetters g n) ∧
      b.any isWordChar = false ∧ s.head?.any isWordChar = false ∧ d = along ⟨b, w, []⟩ g s := by
  rw [wordOf, mem_ways_edged (takesAll_words momentWords) (isWordy_oneOf (by decide))]
  simp only [spells_oneOf_iff]

/-- Where a name of a moment stands alone, the pattern takes it and tells whether it is called. -/
theorem matchAt?_moments {v g s : Text} (halone : StandsAlone v s)
    (hg : ∃ n ∈ momentWords, SameLetters g n) :
    ∃ m, moments.matchAt? v.getLast? (g ++ s) = some m ∧
      (OpensCall s → m.group? 1 ≠ none) ∧ (¬ OpensCall s → m.group? 1 = none ∧ m.text = g) := by
  have hmem := mem_ways_moments.2 ⟨g, s, rfl, hg, halone.1, halone.2, rfl⟩
  cases hways : ways (wordOf momentWords) ⟨v.getLast?, g ++ s, []⟩ with
  | nil => exact absurd (hways ▸ hmem) List.not_mem_nil
  | cons d ds =>
    obtain ⟨g', s', hsplit, ⟨n, hn, hsame⟩, -, hs', rfl⟩ :=
      mem_ways_moments.1 (hways ▸ List.mem_cons_self : d ∈ _)
    -- both words are all the characters of words that stand there
    have hlabels : AreLabels momentWords := by decide
    have hword : ∀ {u : Text}, (∃ n ∈ momentWords, SameLetters u n) →
        ∀ c ∈ u, isWordChar c = true :=
      fun ⟨n, hn, hsame⟩ => hsame.isWordChar (hlabels n hn).2
    have hstop : ∀ {r : Text}, r.head?.any isWordChar = false →
        ∀ y, r.head? = some y → isWordChar y = false := fun h y hy => by simpa [hy] using h
    have hg' : g' = g := by
      rw [← Text.takeWhile_append_of_head (hword ⟨n, hn, hsame⟩) (hstop hs'), ← hsplit,
        Text.takeWhile_append_of_head (hword hg) (hstop halone.2)]
    subst hg'
    rw [List.append_cancel_left hsplit] at hways ⊢
    exact group?_calling wordOf_takesSome hways rfl

/-- A match begins with the word, and behind it come only blanks and a parenthesis. -/
theorem text_of_moments {b : Option Char} {w : Text} {m : Match}
    (hm : moments.matchAt? b w = some m) :
    ∃ g e, m.text = g ++ e ∧ (∀ c ∈ g, isWordChar c = true) ∧ ∀ c ∈ e, isWordChar c = false := by
  obtain ⟨g, e, htext, ⟨_, _, rfl, ⟨_, u, rfl, rfl, hu⟩, rfl⟩, he⟩ := (isOf_of_matchAt? hm).spells
  refine ⟨u, e, by simpa using htext, (isWordChar_of_spells_oneOf (by decide) hu).2, fun c hc => ?_⟩
  rcases he with ⟨y, z, rfl, hy, hz⟩ | rfl
  · rcases List.mem_append.1 hc with hc | hc
    · exact isWordChar_of_isBlank (hy c hc)
    · rw [spells_literal.1 hz] at hc
      exact List.mem_singleton.1 hc ▸ (by decide)
  · exact absurd hc List.not_mem_nil

theorem temporalType_of_called {m : Match} (h : m.group? 1 ≠ none) : temporalType m = m.text := by
  obtain ⟨u, hu⟩ := Option.ne_none_iff_exists'.1 h
  rw [temporalType, hu]

theorem diverges_of_not_called {m : Match} {b : Option Char} {w : Text} (hm : m.IsOf moments b w)
    (h : m.group? 1 = none) : Text.Diverges (temporalType m) m.text := by
  have hnew : temporalType m = "TEXT" := by rw [temporalType, h]
  rw [hnew]
  exact (Pattern.diverges_of_clashes (by decide) hm.spells).symm

/-- The rule for moments leaves a text alone where each name of a moment that stands alone is
called, and no other one. -/
theorem temporal_idle_iff :
    (⟨"sybase.temporal_types", moments, temporalType⟩ : TextRule).applyTo t = t ↔
      ¬ NamedIn (fun g s => (∃ n ∈ momentWords, SameLetters g n) ∧ ¬ OpensCall s) t := by
  constructor
  · rintro hidle ⟨v, g, s, rfl, halone, hg, hcalls⟩
    have hparts : Parts moments temporalType := by
      intro m b w hof
      cases h : m.group? 1 with
      | none => exact Or.inr (diverges_of_not_called hof h)
      | some u => exact Or.inl (temporalType_of_called (by simp [h]))
    obtain ⟨m, hm, -, hnot⟩ := matchAt?_moments halone hg
    obtain ⟨hgroup, htext⟩ := hnot hcalls
    rcases hit_or_covered hm with hit | ⟨v', x, m', rfl, hx, hm', hlt⟩
    · exact (diverges_of_not_called (isOf_of_matchAt? hm) hgroup).ne (hparts.eq_of_hit hidle hit)
    · -- in a match no word begins behind the first one
      obtain ⟨g', e, htext', hword, hbehind⟩ := text_of_moments hm'
      obtain ⟨n, hn, hsame⟩ := hg
      obtain ⟨hne, hletters⟩ : n ≠ [] ∧ ∀ c ∈ n, isLabelChar c = true :=
        (by decide : AreLabels momentWords) n hn
      obtain ⟨y, g, rfl⟩ := List.exists_cons_of_ne_nil (hsame.ne_nil hne)
      have hy := hsame.isWordChar hletters y List.mem_cons_self
      have hfront : x ++ [y] <+: x ++ (y :: g ++ s) := ⟨g ++ s, by simp⟩
      obtain ⟨rest, hrest⟩ : x ++ [y] <+: m'.text :=
        List.prefix_of_prefix_length_le hfront ⟨m'.after, (matchAt?_text hm').2⟩
          (by rwa [List.length_append, List.length_singleton])
      rw [htext', List.append_assoc, List.singleton_append] at hrest
      rcases List.append_eq_append_iff.1 hrest with ⟨a, rfl, -⟩ | ⟨a, rfl, rfl⟩
      · have hz := hword _ (List.mem_append_left a (List.getLast_mem hx))
        have hnot := halone.1
        rw [List.getLast?_append, List.getLast?_eq_some_getLast hx, Option.some_or, Option.any_some,
          hz] at hnot
        exact Bool.false_ne_true hnot.symm
      · exact Bool.false_ne_true ((hbehind y (by simp)).symm.trans hy)
  · intro h
    refine replaceAll_eq_self_of_hits fun m hm => ?_
    obtain ⟨v, w, ht, hm⟩ := matchAt?_of_mem_pieces hm
    have hne : ways moments ⟨v.getLast?, w, []⟩ ≠ [] := fun hnil => by
      rw [(matchAt?_eq_none_iff (by decide)).2 hnil] at hm
      exact absurd hm.symm (Option.some_ne_none m)
    obtain ⟨d, hd⟩ := List.exists_mem_of_ne_nil _ hne
    obtain ⟨e, he, -⟩ := mem_ways_seq.1 hd
    obtain ⟨g, s, rfl, hg, hv, hs, -⟩ := mem_ways_moments.1 he
    obtain ⟨m', hm', hcalled, -⟩ := matchAt?_moments ⟨hv, hs⟩ hg
    obtain rfl := Option.some.inj (hm'.symm.trans hm)
    refine temporalType_of_called (hcalled ?_)
    by_contra hcalls
    exact h ⟨v, g, s, ht, ⟨hv, hs⟩, hg, hcalls⟩

end Sybase

/-! ## Which rules contribute -/

/-- What a stage adds to the rules that were applied are names of its rules. -/
theorem Progress.exists_applied {σ ρ : Type} (name : ρ → Text) (rule? : ρ → σ → Option σ)
    (rules : List ρ) (g : Progress σ) : ∃ names, names.Sublist (rules.map name) ∧
      (rules.foldl (fun g r => g.step (name r) (rule? r)) g).applied = g.applied ++ names := by
  induction rules generalizing g with
  | nil => exact ⟨[], .slnil, (List.append_nil _).symm⟩
  | cons r rules ih =>
    obtain ⟨names, hsub, happlied⟩ := ih (g.step (name r) (rule? r))
    rw [List.foldl_cons, happlied, Progress.step]
    cases rule? r g.state with
    | none => exact ⟨names, hsub.cons _, rfl⟩
    | some s => exact ⟨name r :: names, hsub.cons_cons _, by simp⟩

namespace Pipeline

/-- The rules for types have names of their own. -/
def TypesApart (p : Pipeline) : Prop := ∀ n ∈ p.types.map TextRule.name,
  n ∉ p.lexical.map TextRule.name ∧ n ∉ p.functions.map TextRule.name ∧
    n ∉ p.shape.map ShapeRule.name

theorem typesApart_of_nodup {p : Pipeline} (h : p.ruleNames.Nodup) : p.TypesApart := by
  rw [ruleNames, List.map_append, List.map_append] at h
  obtain ⟨hclauses, -, hshape⟩ := List.nodup_append.1 h
  obtain ⟨hfront, -, hfunctions⟩ := List.nodup_append.1 hclauses
  obtain ⟨-, -, hlexical⟩ := List.nodup_append.1 hfront
  intro n hn
  have hn' := List.mem_append_right (p.lexical.map TextRule.name) hn
  exact ⟨fun hmem => hlexical n hmem n hn rfl, fun hmem => hfunctions n hn' n hmem rfl,
    fun hmem => hshape n (List.mem_append_left _ hn') n hmem rfl⟩

/-- **When no rule for types contributes**: when each of them leaves each body as it is. -/
theorem types_missed_iff {p : Pipeline} (hp : p.TypesApart) (sql : Text) :
    (∀ r ∈ p.types, r.name ∉ (p.apply sql).applied) ↔
      ∀ r ∈ p.types, ∀ c ∈ (Outline.scan (p.runLexical sql).state).clauses,
      r.applyTo c.body = c.body := by
  obtain ⟨lexical, hlexical, hlex⟩ :=
    Progress.exists_applied TextRule.name TextRule.change? p.lexical ⟨sql, [], []⟩
  obtain ⟨types, htypes, htyped⟩ := Progress.exists_applied TextRule.name TextRule.changeOutline?
    p.types (outlined (p.runLexical sql))
  obtain ⟨functions, hfunctions, hcalled⟩ :=
    Progress.exists_applied TextRule.name TextRule.changeOutline?
    p.functions (runOnClauses p.types (outlined (p.runLexical sql)))
  obtain ⟨shape, hshape, hshaped⟩ :=
    Progress.exists_applied ShapeRule.name ShapeRule.reshape? p.shape (p.beforeShape sql)
  have hlexed : (outlined (p.runLexical sql)).applied = lexical := hlex
  have happlied : (p.apply sql).applied = lexical ++ types ++ functions ++ shape :=
    (hshaped.trans (congrArg (· ++ shape) (hcalled.trans (congrArg (· ++ functions)
      (htyped.trans (congrArg (· ++ types) hlexed))))))
  have hidle : (∀ r ∈ p.types, r.name ∉ (p.apply sql).applied) ↔ types = [] := by
    rw [happlied]
    constructor
    · intro h
      refine List.eq_nil_iff_forall_not_mem.2 fun n hn => ?_
      obtain ⟨r, hr, rfl⟩ := List.mem_map.1 (htypes.subset hn)
      exact h r hr (by simp [hn])
    · rintro rfl r hr hmem
      obtain ⟨hnl, hnf, hns⟩ := hp r.name (List.mem_map_of_mem hr)
      simp only [List.append_nil, List.mem_append] at hmem
      rcases hmem with (hmem | hmem) | hmem
      · exact hnl (hlexical.subset hmem)
      · exact hnf (hfunctions.subset hmem)
      · exact hns (hshape.subset hmem)
  rw [hidle, ← List.append_right_eq_self]
  exact (Eq.congr_left htyped.symm).trans (runOnClauses_applied_iff p.types _)

end Pipeline

/-- Somewhere in the text a name of a type of the dialect stands alone. -/
def Dialect.NamesType (d : Dialect) (t : Text) : Prop := NamedIn d.IsTypeName t

/-- The rules for types of Hive leave a text alone in which no name of a type stands alone. -/
theorem Hive.types_idle_iff :
    (∀ r ∈ Hive.pipeline.types, r.applyTo t = t) ↔ ¬ Dialect.hive.NamesType t := by
  have hnames : Dialect.hive.NamesType t ↔
      HasWord ["STRING"] t ∨ HasWord ["BIGINT"] t ∨ HasWord ["DOUBLE"] t := by
    rw [← hasWord_append, ← hasWord_append]
    rfl
  have hrules : Hive.pipeline.types = [
      ⟨"hive.string_type", wordOf ["STRING"], fun _ => "TEXT"⟩,
      ⟨"hive.bigint_type", wordOf ["BIGINT"], fun _ => "INTEGER"⟩,
      ⟨"hive.double_type", wordOf ["DOUBLE"], fun _ => "REAL"⟩] := rfl
  rw [hrules, List.forall_mem_cons, List.forall_mem_cons, List.forall_mem_singleton,
    TextRule.idle_words_iff (by decide) (by decide) (by decide),
    TextRule.idle_words_iff (by decide) (by decide) (by decide),
    TextRule.idle_words_iff (by decide) (by decide) (by decide), hnames, not_or, not_or]

/-- The rules for types of Sybase leave a text alone in which no name of a type stands alone. -/
theorem Sybase.types_idle_iff :
    (∀ r ∈ Sybase.pipeline.types, r.applyTo t = t) ↔ ¬ Dialect.sybase.NamesType t := by
  have hwords : HasWord Sybase.typeWords t ↔ HasWord ["NVARCHAR", "VARCHAR", "NCHAR", "CHAR"] t ∨
      HasWord ["IMAGE", "VARBINARY", "BINARY"] t ∨ HasWord ["SMALLINT", "TINYINT", "BIGINT"] t ∨
      HasWord Sybase.realWords t := by
    rw [← hasWord_append, ← hasWord_append, ← hasWord_append]
    rfl
  have hnames : Dialect.sybase.NamesType t ↔ HasWord Sybase.typeWords t ∨
      NamedIn (fun g _ => Sybase.IsDoublePrecision g) t ∨
      NamedIn (fun g s => (∃ n ∈ Sybase.momentWords, SameLetters g n) ∧ ¬ OpensCall s) t := by
    rw [HasWord, ← namedIn_or, ← namedIn_or]
    rfl
  have hrules : Sybase.pipeline.types = [
      ⟨"sybase.char_types", wordOf ["NVARCHAR", "VARCHAR", "NCHAR", "CHAR"], fun _ => "TEXT"⟩,
      ⟨"sybase.binary_types", wordOf ["IMAGE", "VARBINARY", "BINARY"], fun _ => "BLOB"⟩,
      ⟨"sybase.integer_types", wordOf ["SMALLINT", "TINYINT", "BIGINT"], fun _ => "INTEGER"⟩,
      ⟨"sybase.real_types",
        edge ++ alt Sybase.doublePrecision (oneOf (Sybase.realWords.map letters)) ++ edge,
        fun _ => "REAL"⟩,
      ⟨"sybase.temporal_types", Sybase.moments, Sybase.temporalType⟩] := rfl
  rw [hrules, List.forall_mem_cons, List.forall_mem_cons, List.forall_mem_cons,
    List.forall_mem_cons, List.forall_mem_singleton,
    TextRule.idle_words_iff (by decide) (by decide) (by decide),
    TextRule.idle_words_iff (by decide) (by decide) (by decide),
    TextRule.idle_words_iff (by decide) (by decide) (by decide), Sybase.real_idle_iff,
    Sybase.temporal_idle_iff, hnames, hwords]
  simp only [not_or, and_assoc]

/-- **When no rule for types contributes.** No rule for types of the dialect is applied exactly when
in no clause a name of a type stands alone, wherever it stands and whatever it names there. Then the
stage leaves all clauses as they are. -/
theorem Dialect.types_missed_iff_names {d : Dialect} {p : Pipeline} (hp : d.pipeline? = some p)
    (sql : Text) :
    ((∀ r ∈ p.types, r.name ∉ (p.apply sql).applied) ↔
      ∀ c ∈ (Outline.scan (p.runLexical sql).state).clauses, ¬ d.NamesType c.body) ∧
    ((∀ c ∈ (Outline.scan (p.runLexical sql).state).clauses, ¬ d.NamesType c.body) →
      (Pipeline.runOnClauses p.types (Pipeline.outlined (p.runLexical sql))).state =
        Outline.scan (p.runLexical sql).state) := by
  have hapart := Pipeline.typesApart_of_nodup (Dialect.nodup_ruleNames hp)
  have hidle : ∀ t, (∀ r ∈ p.types, r.applyTo t = t) ↔ ¬ d.NamesType t := by
    cases d with
    | canonical => exact absurd hp.symm (Option.some_ne_none p)
    | hive => exact Option.some.inj hp ▸ fun t => Hive.types_idle_iff
    | sybase => exact Option.some.inj hp ▸ fun t => Sybase.types_idle_iff
  have hbodies : (∀ r ∈ p.types, ∀ c ∈ (Outline.scan (p.runLexical sql).state).clauses,
      r.applyTo c.body = c.body) ↔
      ∀ c ∈ (Outline.scan (p.runLexical sql).state).clauses, ¬ d.NamesType c.body := by
    refine ⟨fun h c hc => (hidle c.body).1 fun r hr => h r hr c hc, fun h r hr c hc => ?_⟩
    exact (hidle c.body).2 (h c hc) r hr
  refine ⟨(Pipeline.types_missed_iff hapart sql).trans hbodies, fun h => ?_⟩
  exact Pipeline.runOnClauses_state_eq (hbodies.2 h)

/-- A function of moments names no type. -/
theorem Dialect.types_missed_iff_names_function :
    (∀ r ∈ Sybase.pipeline.types,
      r.name ∉ (Sybase.pipeline.apply "SELECT date(hired) FROM employees").applied) ∧
    ∀ c ∈ (Outline.scan (Sybase.pipeline.runLexical
      "SELECT date(hired) FROM employees").state).clauses,
      ¬ Dialect.sybase.NamesType c.body := by
  have hmissed : ∀ r ∈ Sybase.pipeline.types,
      r.name ∉ (Sybase.pipeline.apply "SELECT date(hired) FROM employees").applied := by
      decide +kernel
  exact ⟨hmissed, (Dialect.types_missed_iff_names (d := .sybase) rfl _).1.1 hmissed⟩

/-- A column may have the name of a type, and then a rule for types contributes. -/
theorem Dialect.not_types_missed :
    ¬ ∀ (d : Dialect) (p : Pipeline) (sql : Text), d.pipeline? = some p →
    '\'' ∉ sql → ¬ "CAST".toList <:+: sql.asciiUpper → ¬ "CONVERT".toList <:+: sql.asciiUpper →
      ∀ r ∈ p.types, r.name ∉ (p.apply sql).applied := by
  intro h
  have hall := h .sybase Sybase.pipeline "SELECT date FROM t" rfl (by decide) (by decide)
    (by decide)
  have hsome : ∃ r ∈ Sybase.pipeline.types,
      r.name ∈ (Sybase.pipeline.apply "SELECT date FROM t").applied := by decide +kernel
  obtain ⟨r, hr, hmem⟩ := hsome
  exact hall r hr hmem

end SqlScribe
