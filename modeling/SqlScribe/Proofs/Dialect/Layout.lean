import SqlScribe.Dialect.Canonical
import SqlScribe.Proofs.Clause.Squeezed
import SqlScribe.Proofs.Dialect.Rules
import SqlScribe.Proofs.Pattern.Squeezed

/-!
# Layout does not count

Behind the lexical rules of a dialect the room between the words of a statement makes no difference.
Each rule on clauses makes of the squeezed bodies, but for the layout, what it makes of the bodies,
and an outline is written with single spaces whatever the layout of its bodies. Main statements:

* `TextRule.KeepsLayout.squeezed_applyToOutline`: a rule that keeps the layout, on outlines;
* `Hive.keepsLayout`, `Sybase.keepsLayout`: all rules on clauses keep the layout;
* `Sybase.squeezed_topToLimit`: so does the rule for the count of a `TOP`;
* `Dialect.apply_text_congr`: statements with the same words behind the lexical rules are brought to
  the same text.
-/

namespace SqlScribe

open Text Pattern

/-! ## What a pipeline makes of a text -/

/-- The outline with the rule applied, or as it is where the rule finds nothing. -/
def ShapeRule.applyToOutline (r : ShapeRule) (o : Outline) : Outline := (r.reshape? o).getD o

namespace Pipeline

/-- The text behind the lexical rules. -/
def lexed (p : Pipeline) (sql : Text) : Text := p.lexical.foldl (fun t r => r.applyTo t) sql

/-- The outline behind the rules on clauses. -/
def finished (p : Pipeline) (o : Outline) : Outline :=
  p.shape.foldl (fun o r => r.applyToOutline o)
    ((p.types ++ p.functions).foldl (fun o r => r.applyToOutline o) o)

/-- What is under change when rules are run one by one, if each step makes of it what `f` does. -/
theorem state_foldl_step {σ ρ : Type} {name : ρ → Text} {change? : ρ → σ → Option σ} {f : σ → ρ → σ}
    (hstep : ∀ s r, (change? r s).getD s = f s r) (rules : List ρ) (g : Progress σ) :
    (rules.foldl (fun g r => g.step (name r) (change? r)) g).state = rules.foldl f g.state := by
  induction rules generalizing g with
  | nil => rfl
  | cons r rules ih =>
    have hone : (g.step (name r) (change? r)).state = f g.state r := by
      rw [← hstep, Progress.step]
      cases change? r g.state <;> rfl
    rw [List.foldl_cons, List.foldl_cons, ih, hone]

theorem runLexical_state (p : Pipeline) (sql : Text) : (p.runLexical sql).state = p.lexed sql :=
  state_foldl_step (fun t r => r.getD_change? t) p.lexical ⟨sql, [], []⟩

/-- The rules see nothing but what the rules in front of them have made. -/
theorem apply_text_eq (p : Pipeline) (sql : Text) :
    (p.apply sql).text = (p.finished (Outline.scan (p.lexed sql))).render := by
  have hstate : (p.outline sql).state = p.finished (Outline.scan (p.lexed sql)) := by
    rw [outline, runShape, state_foldl_step (fun _ _ => rfl), beforeShape, runOnClauses_state,
      runOnClauses_state, outlined, runLexical_state, finished, List.foldl_append]
    rfl
  rw [← hstate]
  rfl

end Pipeline

/-! ## Rules on texts -/

/-- What the rule makes of a text is, but for the layout, what it makes of the squeezed text. -/
structure TextRule.KeepsLayout (r : TextRule) : Prop where
  elastic : Elastic r.pattern
  settles : Settles r.pattern
  put : ∀ m, squeeze (r.replacement m.squeezed) = squeeze (r.replacement m)

namespace TextRule.KeepsLayout

variable {r : TextRule}

theorem squeeze_applyTo (h : r.KeepsLayout) (t : Text) :
    squeeze (r.applyTo (squeeze t)) = squeeze (r.applyTo t) := by
  have hfrom : ∀ u, r.applyTo u = replaceFrom r.pattern r.replacement none u :=
    fun u => replaceAll_eq _ _ _
  rw [hfrom, hfrom]
  exact h.elastic.squeeze_replaceFrom (b := none) h.settles h.put (runEnds_of_not_blank rfl)

theorem squeezed_applyToOutline (h : r.KeepsLayout) (o : Outline) :
    (r.applyToOutline o.squeezed).squeezed = (r.applyToOutline o).squeezed := by
  simp only [TextRule.applyToOutline, Outline.squeezed, Outline.mk.injEq, List.map_map, and_true]
  refine List.map_congr_left fun c _ => ?_
  simp only [Function.comp_apply, Clause.squeezed, Clause.mk.injEq, true_and]
  exact h.squeeze_applyTo c.body

/-- A rule that puts a fixed text. -/
theorem constant {n w : Text} {p : Pattern} (hp : Elastic p) (hs : Settles p) :
    KeepsLayout ⟨n, p, fun _ => w⟩ := ⟨hp, hs, fun _ => rfl⟩

end TextRule.KeepsLayout

/-! ### What is put for a match -/

/-- What is read of a text in one case is the same of the squeezed text, if nothing with a blank in
it is read. -/
theorem read_squeeze {α : Type} {f : Char → Char} (hf : ∀ c, isBlank (f c) = isBlank c)
    {F : Text → α} {d : α} (hF : ∀ w, (∃ c ∈ w, isBlank c = true) → F w = d) (t : Text) :
    F ((squeeze t).map f) = F (t.map f) := by
  have hblank : ∀ w : Text, (∃ c ∈ w, isBlank c = true) → ∃ c ∈ w.map f, isBlank c = true := by
    rintro w ⟨c, hc, hcb⟩
    exact ⟨f c, List.mem_map_of_mem hc, by rw [hf, hcb]⟩
  by_cases h : ∀ c ∈ t, isBlank c = false
  · rw [squeeze_eq_self h]
  · have hsq : ¬ ∀ c ∈ squeeze t, isBlank c = false := fun hsq => h (not_blank_of_squeeze hsq)
    rw [hF _ (hblank _ (by simpa using hsq)), hF _ (hblank _ (by simpa using h))]

theorem isBlank_toLower (c : Char) : isBlank c.toLower = isBlank c := by
  rw [← isBlank_toUpper, toUpper_toLower, isBlank_toUpper]

theorem ne_of_blank {w v : Text} (h : ∃ c ∈ w, isBlank c = true) (hv : ∀ c ∈ v, isBlank c = false) :
    w ≠ v := by
  rintro rfl
  obtain ⟨c, hc, hblank⟩ := h
  rw [hv c hc] at hblank
  exact Bool.noConfusion hblank

theorem Hive.partFormat_squeeze (t : Text) :
    Hive.partFormat (squeeze t).asciiLower = Hive.partFormat t.asciiLower := by
  refine read_squeeze (F := Hive.partFormat) isBlank_toLower (d := "%d") (fun w hw => ?_) t
  rw [Hive.partFormat, if_neg (ne_of_blank hw (by decide)), if_neg (ne_of_blank hw (by decide))]

theorem Sybase.partFormat_squeeze (t : Text) :
    Sybase.partFormat (squeeze t).asciiUpper = Sybase.partFormat t.asciiUpper := by
  refine read_squeeze (F := Sybase.partFormat) isBlank_toUpper (d := "%S") (fun w hw => ?_) t
  have hnot : ∀ ws : List Text, (∀ v ∈ ws, ∀ c ∈ v, isBlank c = false) → ws.contains w = false := by
    intro ws hws
    rw [List.contains_eq_mem, decide_eq_false_iff_not]
    exact fun hmem => ne_of_blank hw (hws w hmem) rfl
  rw [Sybase.partFormat, hnot _ (by decide), hnot _ (by decide), hnot _ (by decide),
    hnot _ (by decide), hnot _ (by decide)]
  rfl

/-- Blanks stay in front of the first argument. -/
theorem cutUnquoted_blanks {g : Text} (hg : ∀ c ∈ g, isBlank c = true) (q : Bool) (t : Text) :
    cutUnquoted q (g ++ t) = glue g (cutUnquoted q t) := by
  obtain ⟨s, ss, hs⟩ := List.exists_cons_of_ne_nil (cutUnquoted_ne_nil q t)
  rw [hs, glue]
  induction g with
  | nil => exact hs
  | cons c g ih =>
    obtain ⟨hc, hg⟩ := List.forall_mem_cons.1 hg
    have hsign : ∀ d, isBlank d = false → (c == d) = false := by
      intro d hd
      refine beq_eq_false_iff_ne.2 ?_
      rintro rfl
      rw [hc] at hd
      exact Bool.noConfusion hd
    rw [List.cons_append, cutUnquoted, hsign ',' (by decide), hsign '\'' (by decide)]
    simp only [Bool.false_and, Bool.false_eq_true, if_false, ih hg, List.cons_append]

/-- The first argument begins as the list does. -/
theorem head_cutUnquoted {q : Bool} {t s : Text} {ss : List Text} (h : cutUnquoted q t = s :: ss)
    (ht : t.head?.any isBlank = false) : s.head?.any isBlank = false := by
  cases t with
  | nil =>
    obtain rfl := (List.cons.inj h).1
    rfl
  | cons c t =>
    rw [cutUnquoted] at h
    split at h
    · obtain rfl := (List.cons.inj h).1
      rfl
    · split at h
      · obtain rfl := (List.cons.inj h).1
        exact ht
      · obtain rfl := (List.cons.inj h).1
        exact ht

/-- A list of arguments is squeezed argument by argument. -/
theorem cutUnquoted_squeeze (q : Bool) (t : Text) :
    cutUnquoted q (squeeze t) = (cutUnquoted q t).map squeeze := by
  induction laidOut t generalizing q with
  | nil => rfl
  | @char c t hc ht ih =>
    rw [squeeze_cons_of_not_blank hc, cutUnquoted, cutUnquoted]
    split
    · rw [ih, List.map_cons, squeeze_nil]
    · obtain ⟨s, ss, hs⟩ :=
        List.exists_cons_of_ne_nil (cutUnquoted_ne_nil (if c == '\'' then !q else q) t)
      rw [ih, hs]
      simp only [List.map_cons, squeeze_cons_of_not_blank hc]
  | @run g t hne hg hhead ht ih =>
    obtain ⟨s, ss, hs⟩ := List.exists_cons_of_ne_nil (cutUnquoted_ne_nil q t)
    have hspace : cutUnquoted q (' ' :: squeeze t) = glue [' '] (cutUnquoted q (squeeze t)) :=
      cutUnquoted_blanks (g := [' ']) (by decide) q _
    rw [squeeze_run hne hg hhead, hspace, ih, cutUnquoted_blanks hg, hs]
    exact congrArg (· :: ss.map squeeze) (squeeze_run hne hg (head_cutUnquoted hs hhead)).symm

theorem arguments_squeeze (t : Text) : arguments (squeeze t) = (arguments t).map squeeze := by
  rw [arguments, arguments, cutUnquoted_squeeze, List.map_map, List.map_map]
  exact List.map_congr_left fun s _ => trim_squeeze s

/-! ### Calls -/

namespace Pattern.Elastic

variable {name : Text} {k : CharClass}

theorem call1 (hname : ∀ x ∈ name, isBlank x = false) (hk : k.Ample) (hstop : k.has ')' = false) :
    Elastic (call1 name k) :=
  (opening hname).argument 1 hk hstop

theorem call2 (hname : ∀ x ∈ name, isBlank x = false) (hk : k.Ample) (hcomma : k.has ',' = false)
    (hstop : k.has ')' = false) : Elastic (call2 name k) :=
  ((opening hname).argument 1 hk hcomma).argument 2 hk hstop

end Pattern.Elastic

theorem ample_noParen : CharClass.Ample noParen := CharClass.ample_other (by decide)

theorem ample_noParenComma : CharClass.Ample noParenComma := CharClass.ample_other (by decide)

/-- Texts around a group. -/
theorem put_group (m : Match) (n : Nat) (u v : Text) :
    squeeze (u ++ m.squeezed.group n ++ v) = squeeze (u ++ m.group n ++ v) := by
  rw [Match.group_squeezed]
  exact squeeze_append_congr (squeeze_append_congr rfl (squeeze_squeeze _)) rfl

theorem put_only_group (m : Match) : squeeze (m.squeezed.group 1) = squeeze (m.group 1) := by
  rw [Match.group_squeezed, squeeze_squeeze]

/-- Texts around two groups. -/
theorem put_groups (m : Match) (i j : Nat) (u v w : Text) :
    squeeze (u ++ m.squeezed.group i ++ v ++ m.squeezed.group j ++ w) =
      squeeze (u ++ m.group i ++ v ++ m.group j ++ w) := by
  rw [Match.group_squeezed m j]
  exact squeeze_append_congr (squeeze_append_congr (put_group m i u v) (squeeze_squeeze _)) rfl

namespace Hive

theorem put_concat (m : Match) : squeeze (concat m.squeezed) = squeeze (concat m) := by
  simp only [concat, Match.group_squeezed, arguments_squeeze, List.length_map]
  split
  · exact squeeze_squeeze _
  · refine squeeze_append_congr (squeeze_append_congr rfl (squeeze_join_congr ?_)) rfl
    rw [List.map_map]
    exact List.map_congr_left fun t _ => squeeze_squeeze t

theorem put_unixTimestamp (m : Match) :
    squeeze (unixTimestamp m.squeezed) = squeeze (unixTimestamp m) := by
  unfold unixTimestamp
  rw [Match.group_squeezed]
  cases m.group 1 with
  | nil => rfl
  | cons c t =>
    obtain ⟨d, u, hd⟩ : ∃ d u, squeeze (c :: t) = d :: u := List.exists_cons_of_ne_nil (by simp)
    simp only [hd]
    rw [← hd]
    exact squeeze_append_congr (squeeze_append_congr rfl (squeeze_squeeze _)) rfl

theorem put_datePart (m : Match) : squeeze (datePart m.squeezed) = squeeze (datePart m) := by
  have hpart : partFormat (m.squeezed.group 1).asciiLower = partFormat (m.group 1).asciiLower := by
    rw [Match.group_squeezed, partFormat_squeeze]
  unfold datePart
  rw [hpart]
  exact put_group m 2 _ _

/-- **The rules for Hive** keep the layout. -/
theorem keepsLayout : ∀ r ∈ pipeline.types ++ pipeline.functions, r.KeepsLayout := by
  have hname : CharClass.Even .word :=
    CharClass.even_of_no_blank fun _ hx => isWordChar_of_isBlank hx
  have hview : Elastic (blanks ++ edge ++ letters "LATERAL" ++ blanks1 ++ letters "VIEW" ++ blanks1
      ++ letters "explode" ++ blanks ++ literal "(" ++ run (.other (.among [')'])) ++ literal ")"
      ++ blanks1 ++ run1 .word ++ blanks1 ++ letters "AS" ++ blanks1 ++ run1 .word) :=
    Elastic.blanks.append .edge |>.append (.letters (by decide)) |>.append .blanks1
      |>.append (.letters (by decide)) |>.append .blanks1 |>.append (.letters (by decide))
      |>.append .blanks |>.append (.literal (by decide))
      |>.append (.run (CharClass.ample_other (by decide)).even) |>.append (.literal (by decide))
      |>.append .blanks1 |>.append (.run1 hname) |>.append .blanks1 |>.append (.letters (by decide))
      |>.append .blanks1 |>.append (.run1 hname)
  have hpart : Elastic (edge ++ group 1 (oneOf [letters "year", letters "month", letters "day"])
      ++ blanks ++ literal "(" ++ argument 2 noParen ++ literal ")") :=
    Elastic.edge.append ((Elastic.oneOf_letters ["year", "month", "day"] (by decide)).group 1)
      |>.append .blanks |>.append (.literal (by decide)) |>.argument 2 ample_noParen (by decide)
  have hunix : Elastic (opening "unix_timestamp" ++ blanks ++ group 1 (lazyStar (one noParen))
      ++ blanks ++ literal ")") :=
    (Elastic.opening (by decide)).lazyArgument 1 ample_noParen (by decide)
  have hbacktick : Elastic (literal "\x60" ++ group 1 (run (.other (.among ['\x60'])))
      ++ literal "\x60") :=
    (Elastic.literal (by decide)).append
      ((Elastic.run (CharClass.ample_other (by decide)).even).group 1)
      |>.append (.literal (by decide))
  simp only [pipeline, List.cons_append, List.nil_append, List.forall_mem_cons]
  exact ⟨.constant (.word (by decide)) (settles_of_beginsAt (by decide)),
    .constant (.word (by decide)) (settles_of_beginsAt (by decide)),
    .constant (.word (by decide)) (settles_of_beginsAt (by decide)),
    ⟨((Elastic.opening (by decide)).append ((Elastic.run ample_noParen.even).group 1)).append
      (.literal (by decide)), settles_of_beginsAt (by decide), put_concat⟩,
    .constant (.opening (by decide)) (settles_of_beginsAt (by decide)),
    .constant hview (settles_of_blanks rfl),
    ⟨.call1 (by decide) ample_noParenComma (by decide), settles_of_beginsAt (by decide),
      fun m => put_group m 1 _ _⟩,
    ⟨hunix, settles_of_beginsAt (by decide), put_unixTimestamp⟩,
    ⟨hpart, settles_of_beginsAt (by decide), put_datePart⟩,
    ⟨hbacktick, settles_of_sign rfl (by decide), put_only_group⟩, by simp⟩

end Hive

namespace Sybase

theorem put_temporalType (m : Match) :
    squeeze (temporalType m.squeezed) = squeeze (temporalType m) := by
  unfold temporalType
  rw [Match.group?_squeezed]
  cases m.group? 1 with
  | none => rfl
  | some g => exact squeeze_squeeze _

theorem put_datePart (m : Match) : squeeze (datePart m.squeezed) = squeeze (datePart m) := by
  have hpart : partFormat (m.squeezed.group 1).asciiUpper = partFormat (m.group 1).asciiUpper := by
    rw [Match.group_squeezed, partFormat_squeeze]
  unfold datePart
  rw [hpart]
  exact put_group m 2 _ _

theorem keepsLayout_types : ∀ r ∈ pipeline.types, r.KeepsLayout := by
  have hreal : Elastic (edge ++ oneOf [letters "DOUBLE" ++ blanks1 ++ letters "PRECISION",
      letters "SMALLMONEY", letters "MONEY", letters "NUMERIC", letters "DECIMAL", letters "FLOAT"]
      ++ edge) := by
    refine (Elastic.edge.append (.oneOf ?_)).append .edge
    simp only [List.forall_mem_cons]
    exact ⟨((Elastic.letters (by decide)).append .blanks1).append (.letters (by decide)),
      .letters (by decide), .letters (by decide), .letters (by decide), .letters (by decide),
      .letters (by decide), by simp⟩
  have htemporal : Elastic (wordOf ["SMALLDATETIME", "DATETIME", "TIMESTAMP", "DATE", "TIME"]
      ++ opt (group 1 (blanks ++ literal "("))) :=
    (Elastic.wordOf (by decide)).append ((Elastic.blanks.append (.literal (by decide))).group 1).opt
  simp only [pipeline, List.forall_mem_cons]
  exact ⟨.constant (.wordOf (by decide)) (settles_of_beginsAt (by decide)),
    .constant (.wordOf (by decide)) (settles_of_beginsAt (by decide)),
    .constant (.wordOf (by decide)) (settles_of_beginsAt (by decide)),
    .constant hreal (settles_of_beginsAt (by decide)),
    ⟨htemporal, settles_of_beginsAt (by decide), put_temporalType⟩, by simp⟩

theorem even_decimal : CharClass.Even .decimal :=
  CharClass.even_of_no_blank fun _ hx => isDecimal_of_isBlank hx

theorem keepsLayout_functions : ∀ r ∈ pipeline.functions, r.KeepsLayout := by
  have hpart : Elastic (opening "DATEPART" ++ blanks ++ group 1 (oneOf (dateParts.map letters))
      ++ blanks ++ literal "," ++ argument 2 noParen ++ literal ")") :=
    (Elastic.opening (by decide)).append .blanks
      |>.append ((Elastic.oneOf_letters dateParts (by decide)).group 1)
      |>.append .blanks |>.append (.literal (by decide)) |>.argument 2 ample_noParen (by decide)
  have hidentity : Elastic (opening "IDENTITY" ++ blanks ++ run1 .decimal ++ blanks ++ literal ","
      ++ blanks ++ run1 .decimal ++ blanks ++ literal ")") :=
    (Elastic.opening (by decide)).append .blanks |>.append (.run1 even_decimal) |>.append .blanks
      |>.append (.literal (by decide)) |>.append .blanks |>.append (.run1 even_decimal) |>.append
      .blanks |>.append (.literal (by decide))
  have hpatindex : Elastic (opening "PATINDEX" ++ run noParen ++ literal ")") :=
    (Elastic.opening (by decide)).append (.run ample_noParen.even) |>.append (.literal (by decide))
  have hbracket : Elastic (literal "[" ++ group 1 (run1 (.other (.among [']']))) ++ literal "]") :=
    (Elastic.literal (by decide)).append
      ((Elastic.run1 (CharClass.ample_other (by decide)).even).group 1)
      |>.append (.literal (by decide))
  have hcall2 : ∀ name : Text, (∀ x ∈ name, isBlank x = false) →
      Elastic (call2 name noParenComma) :=
    fun name hname => .call2 hname ample_noParenComma (by decide) (by decide)
  simp only [pipeline, List.forall_mem_cons]
  exact ⟨.constant (.opening (by decide)) (settles_of_beginsAt (by decide)),
    .constant ((Elastic.opening (by decide)).append .blanks |>.append (.literal (by decide)))
      (settles_of_beginsAt (by decide)),
    ⟨hpart, settles_of_beginsAt (by decide), put_datePart⟩,
    .constant (.opening (by decide)) (settles_of_beginsAt (by decide)),
    .constant (.opening (by decide)) (settles_of_beginsAt (by decide)),
    ⟨hcall2 _ (by decide), settles_of_beginsAt (by decide), fun m => put_groups m 2 1 _ _ _⟩,
    ⟨hcall2 _ (by decide), settles_of_beginsAt (by decide), fun m => put_groups m 1 2 _ _ _⟩,
    ⟨hcall2 _ (by decide), settles_of_beginsAt (by decide), fun m => put_groups m 1 2 _ _ _⟩,
    .constant hpatindex (settles_of_beginsAt (by decide)),
    .constant hidentity (settles_of_beginsAt (by decide)),
    ⟨hbracket, settles_of_sign rfl (by decide), put_only_group⟩, by simp⟩

end Sybase

/-! ## Rules on outlines -/

namespace Outline

theorem squeezed_squeezed (o : Outline) : o.squeezed.squeezed = o.squeezed := by
  simp only [squeezed, List.map_map, Outline.mk.injEq, and_true]
  refine List.map_congr_left fun c _ => ?_
  simp only [Function.comp_apply, Clause.squeezed, squeeze_squeeze]

theorem body?_squeezed (o : Outline) (k : ClauseKind) :
    o.squeezed.body? k = (o.body? k).map squeeze := by
  rw [body?, body?, squeezed, List.find?_map, Option.map_map, Option.map_map]
  rfl

theorem has_squeezed (o : Outline) (k : ClauseKind) : o.squeezed.has k = o.has k := by
  rw [has, has, body?_squeezed, Option.isSome_map]

/-- A body is put for another one before or after the bodies are squeezed. -/
theorem squeezed_edit (o : Outline) (k : ClauseKind) (body : Text) :
    (o.edit k fun _ => body).squeezed = o.squeezed.edit k fun _ => squeeze body := by
  have hclauses : ∀ cs : List Clause, (editClauses k (fun _ => body) cs).map Clause.squeezed =
      editClauses k (fun _ => squeeze body) (cs.map Clause.squeezed) := by
    intro cs
    induction cs with
    | nil => rfl
    | cons c cs ih =>
      have hkind : c.squeezed.kind = c.kind := rfl
      rw [List.map_cons, editClauses, editClauses, hkind]
      split
      · rfl
      · rw [List.map_cons, ih]
  rw [edit, edit, squeezed, squeezed, hclauses]

theorem squeezed_set (o : Outline) (k : ClauseKind) (body : Text) :
    (o.set k body).squeezed = o.squeezed.set k (squeeze body) := by
  have hclauses : ∀ cs : List Clause, (insertClause ⟨k, body⟩ cs).map Clause.squeezed =
      insertClause ⟨k, squeeze body⟩ (cs.map Clause.squeezed) := by
    intro cs
    induction cs with
    | nil => rfl
    | cons c cs ih =>
      have hkind : c.squeezed.kind = c.kind := rfl
      rw [List.map_cons, insertClause, insertClause, hkind]
      split
      · rfl
      · rw [List.map_cons, ih]
  rw [set, set, has_squeezed]
  split
  · exact squeezed_edit o k body
  · rw [squeezed, squeezed, hclauses]

end Outline

namespace Sybase

theorem elastic_topCount : Elastic topCount :=
  Elastic.textStart.append ((Elastic.letters (by decide)).append .blanks1 |>.group 1).opt
    |>.append (.letters (by decide)) |>.append .blanks1
    |>.append ((Elastic.run1 even_decimal).group 2)
    |>.append .blanks1

/-- The count of a `TOP` is found whatever the layout. -/
theorem squeezed_topToLimit (o : Outline) :
    ((topToLimit? o.squeezed).getD o.squeezed).squeezed = ((topToLimit? o).getD o).squeezed := by
  rw [topToLimit?, topToLimit?, Outline.body?_squeezed]
  cases o.body? .select with
  | none => exact o.squeezed_squeezed
  | some body =>
    have hmatch := (elastic_topCount.matchAt?_squeeze (b := none) (t := body)
      (runEnds_of_not_blank rfl)).1
    rw [Option.map_none] at hmatch
    simp only [Option.map_some, hmatch]
    cases topCount.matchAt? none body with
    | none => exact o.squeezed_squeezed
    | some m =>
      have hbody : squeeze (squeeze (m.group 1) ++ squeeze m.after)
          = squeeze (m.group 1 ++ m.after) := by
        rw [squeeze_squeeze_append, squeeze_append_squeeze]
      simp only [Option.map_some, Option.getD_some, Outline.has_squeezed, Match.group_squeezed]
      split
      · rw [Outline.squeezed_edit, Outline.squeezed_edit, Outline.squeezed_squeezed, Match.squeezed,
          hbody]
      · rw [Outline.squeezed_set, Outline.squeezed_set, Outline.squeezed_edit,
          Outline.squeezed_edit, Outline.squeezed_squeezed, Match.squeezed, hbody, squeeze_squeeze]

end Sybase

/-! ## Pipelines -/

/-- All rules of the pipeline that work on clauses make of an outline, but for the layout, what they
make of the squeezed outline. -/
structure Pipeline.KeepsLayout (p : Pipeline) : Prop where
  rules : ∀ r ∈ p.types ++ p.functions, r.KeepsLayout
  shape : ∀ r ∈ p.shape, ∀ o, (r.applyToOutline o.squeezed).squeezed = (r.applyToOutline o).squeezed

/-- Rules that are run one by one make the same of outlines that differ in their layout. -/
theorem squeezed_foldl_congr {ρ : Type} {f : Outline → ρ → Outline} {rules : List ρ}
    (hf : ∀ r ∈ rules, ∀ o, (f o.squeezed r).squeezed = (f o r).squeezed) {o o' : Outline}
    (h : o.squeezed = o'.squeezed) : (rules.foldl f o).squeezed = (rules.foldl f o').squeezed := by
  induction rules generalizing o o' with
  | nil => exact h
  | cons r rules ih =>
    refine ih (fun r hr => hf r (List.mem_cons_of_mem _ hr)) ?_
    rw [← hf r List.mem_cons_self, h, hf r List.mem_cons_self]

theorem Pipeline.KeepsLayout.squeezed_finished_congr {p : Pipeline} (hp : p.KeepsLayout)
    {o o' : Outline} (h : o.squeezed = o'.squeezed) :
    (p.finished o).squeezed = (p.finished o').squeezed :=
  squeezed_foldl_congr hp.shape
    (squeezed_foldl_congr (fun r hr o => (hp.rules r hr).squeezed_applyToOutline o) h)

theorem Dialect.keepsLayout {d : Dialect} {p : Pipeline} (hp : d.pipeline? = some p) :
    p.KeepsLayout := by
  cases d with
  | canonical => exact absurd hp.symm (Option.some_ne_none p)
  | hive => exact Option.some.inj hp ▸ ⟨Hive.keepsLayout, fun r hr => absurd hr List.not_mem_nil⟩
  | sybase =>
    obtain rfl := Option.some.inj hp
    refine ⟨fun r hr => ?_, fun r hr => ?_⟩
    · exact (List.mem_append.1 hr).elim (Sybase.keepsLayout_types r)
        (Sybase.keepsLayout_functions r)
    · rw [List.mem_singleton.1 hr]
      exact Sybase.squeezed_topToLimit

/-- **Layout does not count.** Statements that have the same words behind the lexical rules are
brought to the same text. -/
theorem Dialect.apply_text_congr {d : Dialect} {p : Pipeline} (hp : d.pipeline? = some p)
    {t u : Text} (h : words (p.lexed t) = words (p.lexed u)) :
    (p.apply t).text = (p.apply u).text := by
  have hfinished := (Dialect.keepsLayout hp).squeezed_finished_congr (Outline.squeezed_scan_congr h)
  rw [p.apply_text_eq, p.apply_text_eq, ← Outline.render_squeezed, hfinished,
    Outline.render_squeezed]

end SqlScribe
