import SqlScribe.Proofs.Dialect.HiveCalls
import SqlScribe.Proofs.Dialect.Literals
import SqlScribe.Proofs.Dialect.SybaseCalls
import SqlScribe.Proofs.Expression.Layout
import SqlScribe.Proofs.Expression.Leaf
import SqlScribe.Proofs.Expression.Occurrence

/-!
# Calls that a pipeline leaves

What a pipeline makes of a statement that selects an expression is the statement that selects the
translated expression. So a call of a function of the dialect is left in it exactly where the rule
of the function does not find one: where an argument is a call or holds a character that the rule
stops at. Main statements:

* `Pipeline.apply_selecting`: a pipeline whose rules for functions are a translation;
* `Dialect.no_call_left_iff`: which expressions lose all their calls;
* `not_no_call_left`: a call inside of another one is not seen as its argument.
-/

namespace SqlScribe

open SqlScribe.Expr Outline Pattern

/-- Whether a name in any case is that of a function of the dialect that takes the arguments. -/
def Translation.takes (d : Translation) (g : Text) (args : List (Option Text)) : Bool :=
  d.functions.any fun f => f.name == g.asciiLower && f.takes args

/-- An expression of leaves and of calls of the functions of a dialect, each with arguments that
it takes. -/
inductive Expr.Calls (d : Translation) : Expr → Prop
  | leaf {t : Text} (ht : Leaf t) : Calls d (atom t)
  | call {g : Text} {parts : List Expr} (htakes : d.takes g (parts.map text?) = true)
      (hparts : ∀ e ∈ parts, Calls d e) : Calls d (node g parts)

theorem Translation.takes_iff {d : Translation} {g : Text} {args : List (Option Text)} :
    d.takes g args = true ↔ ∃ f ∈ d.functions, f.name = g.asciiLower ∧ f.takes args = true := by
  simp [takes]

/-- The names of the functions are names, of no clause and of nothing that the rules write. -/
structure Translation.Named (d : Translation) : Prop where
  labels : ∀ f ∈ d.functions, f.name ≠ [] ∧ ∀ c ∈ f.name, isLabelChar c = true
  reserved : ∀ f ∈ d.functions, f.name.asciiUpper ∉ reservedWords
  targets : ∀ f ∈ d.functions, f.name ∉ d.targets
  lower : ∀ f ∈ d.functions, f.name.asciiLower = f.name

/-! ## Names in any case -/

theorem isLabelChar_of_asciiLower {g : Text} (h : ∀ c ∈ g.asciiLower, isLabelChar c = true) :
    ∀ c ∈ g, isLabelChar c = true := fun c hc => by
  rw [← isLabelChar_toLower]
  exact h _ (List.mem_map_of_mem hc)

theorem asciiUpper_asciiLower (g : Text) : g.asciiLower.asciiUpper = g.asciiUpper := by
  rw [Text.asciiUpper, Text.asciiUpper, Text.asciiLower, List.map_map]
  exact List.map_congr_left fun c _ => toUpper_toLower c

namespace Expr.Calls

variable {d : Translation} {e : Expr}

theorem formed (hd : d.Named) (h : Calls d e) : e.Formed := by
  induction h with
  | leaf ht => exact .atom ht.plain
  | call htakes _ ih =>
    obtain ⟨f, hf, hname, -⟩ := Translation.takes_iff.1 htakes
    exact .node (isLabelChar_of_asciiLower (hname ▸ (hd.labels f hf).2)) ih

theorem known (h : Calls d e) : e.All d.Known := by
  induction h with
  | leaf => trivial
  | call htakes _ ih => exact all_node_iff.2 ⟨Or.inr (Translation.takes_iff.1 htakes), ih⟩

/-- Every call in the expression is one of a function of the dialect. -/
theorem all_named (h : Calls d e) :
    e.All fun g _ => ∃ f ∈ d.functions, f.name = g.asciiLower := by
  induction h with
  | leaf => trivial
  | call htakes _ ih =>
    obtain ⟨f, hf, hname, -⟩ := Translation.takes_iff.1 htakes
    exact all_node_iff.2 ⟨⟨f, hf, hname⟩, ih⟩

theorem opensNone (hd : d.Named) (h : Calls d e) : OpensNone e := by
  cases h with
  | leaf ht => exact ht.inert
  | call htakes _ =>
    obtain ⟨f, hf, hname, -⟩ := Translation.takes_iff.1 htakes
    show Text.asciiUpper _ ∉ reservedWords
    rw [← asciiUpper_asciiLower, ← hname]
    exact hd.reserved f hf

theorem inert (hd : d.Named) (h : Calls d e) : Inert e.write :=
  inert_write (h.formed hd) (h.opensNone hd)

end Expr.Calls

/-! ## Selections under a pipeline -/

namespace Pipeline

variable {p : Pipeline} {d : Translation} {b : Text}

/-- Rules that leave the table alone rewrite the columns. -/
theorem foldl_applyToOutline {rules : List TextRule} (ht : ∀ r ∈ rules, r.applyTo ['t'] = ['t'])
    (b : Text) : rules.foldl (fun o r => r.applyToOutline o) ⟨[⟨.select, b⟩, ⟨.from, ['t']⟩], false⟩
      = ⟨[⟨.select, rules.foldl (fun t r => r.applyTo t) b⟩, ⟨.from, ['t']⟩], false⟩ := by
  induction rules generalizing b with
  | nil => rfl
  | cons r rules ih =>
    have hstep : r.applyToOutline ⟨[⟨.select, b⟩, ⟨.from, ['t']⟩], false⟩
        = ⟨[⟨.select, r.applyTo b⟩, ⟨.from, ['t']⟩], false⟩ := by
      simp [TextRule.applyToOutline, ht r List.mem_cons_self]
    rw [List.foldl_cons, List.foldl_cons, hstep,
      ih fun r' hr' => ht r' (List.mem_cons_of_mem r hr')]

/-- The rules for functions are those of the translation, and nothing else is done to the columns
of a statement that begin apart. -/
structure Translates (p : Pipeline) (d : Translation) : Prop where
  rules : d.rules.map CallRule.rule = p.functions
  sound : d.Sound
  named : d.Named
  table : ∀ r ∈ p.types ++ p.functions, r.applyTo ['t'] = ['t']
  shape : ∀ r ∈ p.shape, ∀ b : Text, b.StartsApart →
    r.reshape? ⟨[⟨.select, b⟩, ⟨.from, ['t']⟩], false⟩ = none

/-- **A pipeline translates the selected expression.** Where no comment is found, what is returned
for a selection is the selection of the translated expression, its blanks squeezed. -/
theorem apply_selecting (h : p.Translates d) {x e : Expr} (hx : x.Calls d) (he : e.Calls d)
    (hlexical : ∀ r ∈ p.lexical, r.applyTo (selecting x.write) = selecting x.write)
    (htypes : p.types.foldl (fun t r => r.applyTo t) x.write = e.write) :
    (p.apply (selecting x.write)).text = selecting (d.run e).squeeze.write := by
  have hform := he.formed h.named
  obtain ⟨hwrite, hrun, htext⟩ := h.sound.foldl_applyTo hform he.known
  have hscan : (outlined (p.runLexical (selecting x.write))).state
      = ⟨[⟨.select, x.write⟩, ⟨.from, ['t']⟩], false⟩ := by
    have hxform := hx.formed h.named
    rw [outlined, runLexical_state_eq hlexical]
    exact scan_selecting (hx.inert h.named) (head_write hxform) (last_write hxform)
  have hfunctions : p.functions.foldl (fun t r => r.applyTo t) e.write = (d.run e).write := by
    rw [← h.rules, List.foldl_map]
    exact hwrite
  have hbefore : (p.beforeShape (selecting x.write)).state
      = ⟨[⟨.select, (d.run e).write⟩, ⟨.from, ['t']⟩], false⟩ := by
    rw [beforeShape, runOnClauses_state, runOnClauses_state, hscan,
      foldl_applyToOutline (fun r hr => h.table r (List.mem_append_left _ hr)), htypes,
      foldl_applyToOutline (fun r hr => h.table r (List.mem_append_right _ hr)), hfunctions]
  have hapart : (d.run e).write.StartsApart := by
    -- what is a text behind the rules was one in front of them, and a leaf
    generalize d.run e = y at hrun htext
    cases hrun with
    | atom =>
      cases he with
      | leaf hleaf => exact Option.some.inj htext ▸ hleaf.startsApart
      | call => exact absurd htext (by simp [text?])
    | node hname _ => exact startsApart_node hname
  have hshape : (p.outline (selecting x.write)).state
      = ⟨[⟨.select, (d.run e).write⟩, ⟨.from, ['t']⟩], false⟩ := by
    rw [outline, runShape, Progress.foldl_state_eq _ _ fun r hr => ?_, hbefore]
    rw [hbefore]
    exact h.shape r hr _ hapart
  rw [apply, hshape, render_selecting (write_ne_nil hrun) (head_write hrun) (last_write hrun),
    hrun.write_squeeze]

end Pipeline

/-! ## Both dialects -/

theorem Sybase.topToLimit?_of_startsApart {b : Text} (hb : b.StartsApart) :
    topToLimit? ⟨[⟨.select, b⟩, ⟨.from, ['t']⟩], false⟩ = none := by
  rw [topToLimit?_eq_none_iff]
  rintro body hbody
  obtain rfl : b = body := Option.some.inj hbody
  by_contra hne
  obtain ⟨m, hm⟩ := Option.ne_none_iff_exists'.1 hne
  have hof := isOf_of_matchAt? hm
  -- a count stands behind a word and a blank
  have hword : ∃ u c r, m.text = u ++ c :: r ∧ (∀ x ∈ u, isWordChar x = true) ∧
      isBlank c = true := by
    have hletters : ∀ {w u : Text}, (∀ c ∈ w, isLabelChar c = true) → (letters w).Spells u →
        ∀ x ∈ u, isWordChar x = true := fun hw hu =>
      (spells_letters.1 hu).isWordChar hw
    obtain ⟨_, _, htext, ⟨_, _, rfl, ⟨_, _, rfl, ⟨_, t, rfl, ⟨a, o, rfl, ha, ho⟩, ht⟩, hblanks⟩, -⟩,
      -⟩ := hof.spells
    obtain rfl : a = [] := ha
    simp only [List.nil_append, List.append_assoc] at htext
    rcases ho with ⟨u, _, rfl, hu, _, _, rfl, ⟨c, rfl, hc⟩, -⟩ | ho
    · simp only [List.append_assoc, List.singleton_append] at htext
      exact ⟨u, c, _, htext, hletters (by decide) hu, hc⟩
    · obtain rfl : o = [] := ho
      obtain ⟨_, _, rfl, ⟨c, rfl, hc⟩, -⟩ := hblanks
      simp only [List.nil_append, List.singleton_append] at htext
      exact ⟨t, c, _, htext, hletters (by decide) ht, hc⟩
  obtain ⟨u, c, r, htext, hu, hc⟩ := hword
  have happ := hof.text_append
  rw [htext, List.append_assoc] at happ
  obtain ⟨x, hx, hsign⟩ := hb u c _ happ.symm hc
  exact absurd (hu x hx) (by simp [hsign])

/-- The translation that the rules of a dialect for functions are. -/
def Dialect.translation : Dialect → Translation
  | canonical => ⟨[], []⟩
  | hive => Hive.translation
  | sybase => Sybase.translation

theorem Hive.translates : pipeline.Translates translation where
  rules := rules_translation
  sound := sound_translation
  named := ⟨by decide, by decide, by decide, by decide⟩
  table := by decide +kernel
  shape := fun _ hr => absurd hr List.not_mem_nil

theorem Sybase.translates : pipeline.Translates translation where
  rules := rules_translation
  sound := sound_translation
  named := ⟨by decide, by decide, by decide, by decide⟩
  table := by decide +kernel
  shape := fun r hr b hb => by
    obtain rfl := List.mem_singleton.1 hr
    exact topToLimit?_of_startsApart hb

theorem Dialect.translates {d : Dialect} {p : Pipeline} (h : d.pipeline? = some p) :
    p.Translates d.translation := by
  cases d with
  | canonical => exact absurd h (by simp [Dialect.pipeline?])
  | hive => exact Option.some.inj h ▸ Hive.translates
  | sybase => exact Option.some.inj h ▸ Sybase.translates

/-- No call of a function that the dialect has a rule for is found in the text. -/
def Dialect.NoCall (d : Dialect) (t : Text) : Prop :=
  ∀ f ∈ d.translation.functions, (opening f.name).findAll t = []

/-- **Which expressions lose all their calls.** In a selection without comments, of an expression
built from leaves by calls of the functions of a dialect, no such call is left exactly if the rule
of every function finds its calls, with the names of types replaced: a rule that replaces a call
as a whole does not if there is a call among the arguments, or a character that it stops at in
one of them. -/
theorem Dialect.no_call_left_iff {d : Dialect} {p : Pipeline} (hp : d.pipeline? = some p)
    {x e : Expr} (hx : x.Calls d.translation) (he : e.Calls d.translation)
    (hlexical : ∀ r ∈ p.lexical, r.applyTo (selecting x.write) = selecting x.write)
    (htypes : p.types.foldl (fun t r => r.applyTo t) x.write = e.write) :
    d.NoCall (p.apply (selecting x.write)).text ↔ e.All d.translation.Reached := by
  have htranslates := Dialect.translates hp
  have hnamed := htranslates.named
  have hform := he.formed hnamed
  obtain ⟨-, hrun, -⟩ := htranslates.sound.foldl_applyTo hform he.known
  have hcalls : ∀ f ∈ d.translation.functions,
      ((opening f.name).findAll (selecting (d.translation.run e).squeeze.write) = [] ↔
        (d.translation.run e).All fun g _ => f.name ≠ g.asciiLower) := by
    intro f hf
    have hselect : f.name.asciiLower ≠ "select".toList := by
      intro h
      refine hnamed.reserved f hf ?_
      rw [← asciiUpper_asciiLower, h]
      decide
    rw [findAll_opening_selecting (hnamed.labels f hf) hselect hrun.squeeze, hnamed.lower f hf,
      all_squeeze_iff hrun]
    exact all_congr hrun fun _ _ => ne_comm
  rw [Dialect.NoCall, Pipeline.apply_selecting htranslates hx he hlexical htypes,
    forall₂_congr hcalls, all_forall_iff hrun,
    htranslates.sound.none_left_iff hnamed.targets hform he.known,
    all_imp_iff hform he.all_named]

/-- The name of `ISNULL` changes whatever its arguments are, and in front of the rules for functions
the name of a type is replaced. -/
theorem Dialect.no_call_left_isnull : Dialect.sybase.NoCall
    (Sybase.pipeline.apply "SELECT ISNULL(LEN(name), LEFT(date, -3)) FROM t").text := by
  have hcalls : ∀ {w : Text}, Leaf w → Calls Sybase.translation
      (node "ISNULL" [node "LEN" [atom "name"], node "LEFT" [atom w, atom "-3"]]) := by
    intro w hw
    have hname : Leaf "name" := .word (by decide) (by decide +kernel) (by decide)
    have hcount : Leaf "-3" := .negative (w := ['3']) (by decide) (by decide)
    refine .call rfl ?_
    rw [List.forall_mem_cons, List.forall_mem_singleton]
    refine ⟨.call rfl ?_, .call rfl ?_⟩
    · rw [List.forall_mem_singleton]
      exact .leaf hname
    · rw [List.forall_mem_cons, List.forall_mem_singleton]
      exact ⟨.leaf hw, .leaf hcount⟩
  have hdate : Leaf "date" := .word (by decide) (by decide +kernel) (by decide)
  have htype : Leaf "TEXT" := .word (by decide) (by decide +kernel) (by decide)
  have htext : "SELECT ISNULL(LEN(name), LEFT(date, -3)) FROM t".toList = selecting
      (node "ISNULL" [node "LEN" [atom "name"], node "LEFT" [atom "date", atom "-3"]]).write := by
    decide +kernel
  rw [htext]
  exact (Dialect.no_call_left_iff (d := .sybase) rfl (hcalls hdate) (hcalls htype)
    (by decide +kernel) (by decide +kernel)).2 (by decide +kernel)

/-- Of a call inside of another one the outer one is left. -/
theorem Dialect.not_no_call_left :
    (¬ ∀ x : Expr, x.Calls Hive.translation →
      Dialect.hive.NoCall (Hive.pipeline.apply (selecting x.write)).text) ∧
    ¬ ∀ x : Expr, x.Calls Sybase.translation →
      Dialect.sybase.NoCall (Sybase.pipeline.apply (selecting x.write)).text := by
  constructor
  · intro h
    have hname : Leaf "ts" := .word (by decide) (by decide +kernel) (by decide)
    have hinner : Calls Hive.translation (node "from_unixtime" [atom "ts"]) :=
      .call rfl (List.forall_mem_singleton.2 (.leaf hname))
    have hnone := h _ (.call (g := "year") rfl (List.forall_mem_singleton.2 hinner))
    exact absurd (hnone Hive.translation.functions[4] (List.getElem_mem _)) (by decide +kernel)
  · intro h
    have hname : Leaf "year" := .word (by decide) (by decide +kernel) (by decide)
    have hinner : Calls Sybase.translation (node "GETDATE" []) :=
      .call rfl fun _ h => absurd h List.not_mem_nil
    have hnone := h _ (.call (g := "DATEPART") rfl
      (List.forall_mem_cons.2 ⟨.leaf hname, List.forall_mem_singleton.2 hinner⟩))
    exact absurd (hnone Sybase.translation.functions[2] (List.getElem_mem _)) (by decide +kernel)

end SqlScribe
