import SqlScribe.Proofs.Dialect.HiveCalls
import SqlScribe.Proofs.Dialect.SybaseCalls
import SqlScribe.Proofs.Expression.Chain
import SqlScribe.Proofs.Expression.Scanning

/-!
# Arguments between operators

Two rules put the arguments of a call next to operators as they stand: `concat` of Hive becomes a
chain of `||`, and the count of `RIGHT` of Sybase stands behind a minus sign. Nothing is put in
parentheses, so what the engine reads depends on the operators of the arguments. Main statements:

* `Hive.puts_concat_iff`, `Sybase.puts_right_iff`: which calls are replaced, and by what;
* `Dialect.operands_kept_iff`: which calls keep every argument one operand.
-/

namespace SqlScribe

open SqlScribe.Expr Pattern

/-- The rule finds the text `u` between `b` and `r` as a whole, and puts `w` for it. -/
def TextRule.Puts (s : TextRule) (b : Option Char) (u r w : Text) : Prop :=
  ∃ m, s.pattern.matchAt? b (u ++ r) = some m ∧ m.text = u ∧ s.replacement m = w

/-- The rule for functions that has a name. -/
def Pipeline.function? (p : Pipeline) (name : Text) : Option TextRule :=
  p.functions.find? fun s => s.name == name

/-- The call of a function, blanks behind its name, with arguments in any layout. -/
def called (g e : Text) (ts : List Text) : Text := g ++ (e ++ '(' :: (Text.join [','] ts ++ [')']))

/-- A match of a whole call has no parenthesis among the arguments, and what fits for arguments. -/
theorem noParen_of_puts {s : TextRule} {names : List Text} {fits : Text → Prop} {b : Option Char}
    {g e n r w : Text} {ts : List Text} (htight : Tight s.pattern names fits)
    (hsame : SameLetters g n) (hn : ∀ c ∈ n, isLabelChar c = true) (he : ∀ c ∈ e, isBlank c = true)
    (h : s.Puts b (called g e ts) r w) :
    (∀ c ∈ Text.join [','] ts, noParen.has c = true) ∧ fits (Text.join [','] ts) := by
  obtain ⟨m, hm, htext, -⟩ := h
  obtain ⟨v, x, hspelled, hv, hx, hfits⟩ := htight.closes (isOf_of_matchAt? hm).spells
  have hfront : '(' ∉ g ++ e := by
    intro hc
    rcases List.mem_append.1 hc with hc | hc
    · exact absurd (hsame.isWordChar hn _ hc) (by decide)
    · exact absurd (he _ hc) (by decide)
  rw [htext, called, ← List.append_assoc] at hspelled
  obtain ⟨-, hinner⟩ := Text.eq_of_append_cons_eq hfront hv hspelled
  obtain rfl := List.append_cancel_right hinner
  exact ⟨hx, hfits⟩

/-- A text between blanks is one argument if it is one without them. -/
theorem Text.uncut_of_trim {t : Text} (h : uncut false (trim t) = true) : uncut false t = true := by
  obtain ⟨u, e, hsplit, hu, he⟩ := exists_trim t
  have hblank : ∀ {v : Text}, (∀ c ∈ v, isBlank c = true) → uncut false v = true := fun hv =>
    uncut_of_no_comma (fun hc => absurd (hv _ hc) (by decide)) fun hc =>
      absurd (hv _ hc) (by decide)
  rw [hsplit]
  exact uncut_append (hblank hu) (uncut_append h (hblank he))

/-- The text has the operators and operands of a chain, blanks around them. -/
def Chain.SpellsTrimmed (c : Chain) (t : Text) : Prop := c.Spells (Text.trim t)

instance (c : Chain) (t : Text) : Decidable (c.SpellsTrimmed t) :=
  inferInstanceAs (Decidable (c.Spells (Text.trim t)))

theorem Chain.SpellsTrimmed.trim_ne_nil {c : Chain} {t : Text} (h : c.SpellsTrimmed t) :
    Text.trim t ≠ [] := by
  intro hnil
  rw [SpellsTrimmed, hnil] at h
  exact absurd h (by simp [Spells, lex, lexFrom, Pending.tokens, tokens])

/-! ## Which calls are replaced -/

/-- A call of `concat` is replaced if there is no parenthesis in it. -/
theorem Hive.puts_concat_iff {s : TextRule} {b : Option Char} {g e r w : Text} {ts : List Text}
    (hs : pipeline.function? "hive.concat" = some s) (hsame : SameLetters g "concat".toList)
    (he : ∀ c ∈ e, isBlank c = true) (hb : b.any isWordChar = false) (htwo : 2 ≤ ts.length)
    (huncut : ∀ t ∈ ts, Text.uncut false t = true) :
    s.Puts b (called g e ts) r w ↔ (∀ t ∈ ts, ∀ c ∈ t, noParen.has c = true) ∧
      w = '(' :: (Text.join " || " (ts.map Text.trim) ++ [')']) := by
  obtain rfl := Option.some.inj hs
  have hne : ts ≠ [] := by
    rintro rfl
    exact absurd htwo (by simp)
  have hargs : Text.arguments (Text.join [','] ts) = ts.map Text.trim :=
    Text.arguments_join hne huncut
  have hput : ∀ {m : Match}, m.group 1 = Text.join [','] ts →
      concat m = '(' :: (Text.join " || " (ts.map Text.trim) ++ [')']) := fun hm => by
    rw [concat_of_arguments (by rw [hm, hargs]; simpa using htwo), hm, hargs]
  have hmatch : (∀ c ∈ Text.join [','] ts, noParen.has c = true) → (opening "concat"
      ++ group 1 (run noParen) ++ literal ")").matchAt? b (called g e ts ++ r)
        = some ⟨b, called g e ts, [(1, Text.join [','] ts)], r⟩ := fun hjoin => by
    have happ : called g e ts ++ r = g ++ (e ++ '(' :: (Text.join [','] ts ++ [')'] ++ r)) := by
      simp [called]
    rw [happ]
    exact matchAt?_concat hsame he hjoin hb r
  constructor
  · intro h
    have hjoin := (noParen_of_puts tight_concat hsame (by decide) he h).1
    obtain ⟨m, hm, -, rfl⟩ := h
    obtain rfl := Option.some.inj ((hmatch hjoin).symm.trans hm)
    exact ⟨fun t ht c hc => hjoin c ((Text.infix_join ht).subset hc), hput rfl⟩
  · rintro ⟨hparen, rfl⟩
    refine ⟨_, hmatch fun c hc => ?_, rfl, hput rfl⟩
    rcases Text.mem_join hc with hc | ⟨t, ht, hc⟩
    · exact List.mem_singleton.1 hc ▸ by decide
    · exact hparen t ht c hc

/-- A call of `RIGHT` is replaced if there is no parenthesis in it and no comma in its arguments. -/
theorem Sybase.puts_right_iff {s : TextRule} {b : Option Char} {g e r w t u : Text}
    (hs : pipeline.function? "sybase.right" = some s) (hsame : SameLetters g "RIGHT".toList)
    (he : ∀ c ∈ e, isBlank c = true) (hb : b.any isWordChar = false) (ht : Text.trim t ≠ [])
    (hu : Text.trim u ≠ []) :
    s.Puts b (called g e [t, u]) r w ↔ (∀ c ∈ t ++ u, noParenComma.has c = true) ∧
      w = "substr" ++ '(' :: (Text.trim t ++ ',' :: ' ' :: '-' :: (Text.trim u ++ [')'])) := by
  obtain rfl := Option.some.inj hs
  have hjoin : Text.join [','] [t, u] = t ++ ',' :: u := by simp [Text.join]
  have hmatch : (∀ c ∈ t ++ u, noParenComma.has c = true) →
      (call2 "RIGHT" noParenComma).matchAt? b (called g e [t, u] ++ r)
        = some ⟨b, called g e [t, u], [(2, Text.trim u), (1, Text.trim t)], r⟩ := fun hclass => by
    have happ : called g e [t, u] ++ r = g ++ (e ++ '(' :: (t ++ ',' :: u ++ [')'] ++ r)) := by
      simp [called, hjoin]
    rw [happ, called, hjoin]
    exact matchAt?_call2 hsame (by decide) (by decide) he ht
      (fun c hc => hclass c (List.mem_append_left u (Text.mem_of_mem_trim hc))) hu
      (fun c hc => hclass c (List.mem_append_right t (Text.mem_of_mem_trim hc))) (by decide)
      (by decide) hb r
  have hput : ∀ {m : Match}, m.group 1 = Text.trim t → m.group 2 = Text.trim u →
      ("substr(" ++ m.group 1 ++ ", -" ++ m.group 2 ++ ")" : Text)
        = "substr" ++ '(' :: (Text.trim t ++ ',' :: ' ' :: '-' :: (Text.trim u ++ [')'])) := by
    intro m hm hm'
    rw [hm, hm']
    simp
  constructor
  · intro h
    obtain ⟨hparen, hcount⟩ := noParen_of_puts
      (tight_call2 (n := "RIGHT") (by decide) (by decide)) hsame
      (by decide) he h
    have hclass : ∀ c ∈ t ++ u, noParenComma.has c = true := fun c hc => by
      rw [hjoin] at hparen hcount
      have hnone : (t ++ u).count ',' = 0 := by
        simp only [List.count_append, List.count_cons_self] at hcount ⊢
        omega
      refine noParenComma_iff.2 ⟨hparen c ?_, ?_⟩
      · exact (List.mem_append.1 hc).elim (List.mem_append_left _)
          fun hc => List.mem_append_right _ (List.mem_cons_of_mem _ hc)
      · rintro rfl
        exact List.count_eq_zero.1 hnone hc
    obtain ⟨m, hm, -, rfl⟩ := h
    obtain rfl := Option.some.inj ((hmatch hclass).symm.trans hm)
    exact ⟨hclass, hput rfl rfl⟩
  · rintro ⟨hclass, rfl⟩
    exact ⟨_, hmatch hclass, rfl, hput rfl rfl⟩

/-! ## What is read -/

/-- A chain behind a minus is a negation only if it is one operand. -/
theorem Chain.extend_negation_eq_iff (c : Chain) :
    extend (.negation (.item c.first)) c.rest = .negation c.tree ↔ c.rest = [] := by
  obtain ⟨first, rest⟩ := c
  cases rest with
  | nil => exact iff_of_true rfl rfl
  | cons p ps =>
    refine iff_of_false (fun heq => ?_) (List.cons_ne_nil p ps)
    have hle := (rank_extend (.negation (.item first)) (p :: ps)).2 p List.mem_cons_self
    have hlevel := p.1.level_le
    rw [heq] at hle
    have hrank : (8 : Nat) ≤ p.1.level := hle
    omega

/-- **Which calls keep their arguments.** The arguments are chains of names, numbers, literals and
binary operators, in any layout. A call of `concat` with two of them or more becomes the
concatenation of its arguments exactly if no parenthesis stands in a literal, the first argument has
no operator looser than `||`, and the others have none but `||`. A call of `RIGHT` becomes `substr`
with the negation of the whole of its second argument exactly if no parenthesis and no comma stands
in a literal, and that argument has no operator. -/
theorem Dialect.operands_kept_iff {b : Option Char} (hb : b.any isWordChar = false) (r : Text) :
    (∀ {s : TextRule} {g e t : Text} {ts : List Text} {c : Chain} {cs : List Chain},
      Hive.pipeline.function? "hive.concat" = some s → SameLetters g "concat".toList →
      (∀ x ∈ e, isBlank x = true) → c.SpellsTrimmed t → List.Forall₂ Chain.SpellsTrimmed cs ts →
      ts ≠ [] →
      ((∃ w tree, s.Puts b (called g e (t :: ts)) r w ∧ parse w = some (.group tree) ∧
          tree.operands = (c :: cs).flatMap fun d => d.tree.operands) ↔
        (∀ u ∈ t :: ts, ∀ x ∈ u, noParen.has x = true) ∧ (∀ o ∈ c.ops, o.level = 7) ∧
          ∀ d ∈ cs, ∀ o ∈ d.ops, o = .concat)) ∧
    ∀ {s : TextRule} {g e t u : Text} {c d : Chain},
      Sybase.pipeline.function? "sybase.right" = some s → SameLetters g "RIGHT".toList →
      (∀ x ∈ e, isBlank x = true) → c.SpellsTrimmed t → d.SpellsTrimmed u →
      ((∃ w, s.Puts b (called g e [t, u]) r w ∧
          parse w = some (.call "substr" [c.tree, .negation d.tree])) ↔
        (∀ x ∈ t ++ u, noParenComma.has x = true) ∧ d.ops = []) := by
  constructor
  · intro s g e t ts c cs hs hsame he ht hts hne
    have huncut : ∀ {c : Chain} {t : Text}, c.SpellsTrimmed t → Text.uncut false t = true :=
      fun h => Text.uncut_of_trim h.uncut
    have hspells : List.Forall₂ Chain.Spells cs (ts.map Text.trim) :=
      List.forall₂_map_right_iff.2 hts
    have hcs : cs ≠ [] := fun hnil => by
      rw [hnil, List.forall₂_nil_left_iff] at hts
      exact hne hts
    have hboth : List.Forall₂
        (fun u (d : Chain) => Text.uncut false u = true ∧ d.SpellsTrimmed u) ts cs :=
      hts.flip.imp fun _ _ hd => ⟨huncut hd, hd⟩
    have huncuts : ∀ u ∈ t :: ts, Text.uncut false u = true :=
      List.forall_mem_cons.2 ⟨huncut ht, ((List.forall₂_and_left _ _).1 hboth).1⟩
    have htwo : 2 ≤ (t :: ts).length := Nat.succ_le_succ (List.length_pos_of_ne_nil hne)
    have hparse := (ht.join hspells).parse_group
    rw [← List.map_cons] at hparse
    constructor
    · rintro ⟨w, tree, hput, hread, hoperands⟩
      obtain ⟨hparen, rfl⟩ := (Hive.puts_concat_iff hs hsame he hb htwo huncuts).1 hput
      obtain rfl := Tree.group.inj (Option.some.inj (hparse.symm.trans hread))
      exact ⟨hparen, (Chain.operands_join_iff c hcs).1 hoperands⟩
    · rintro ⟨hparen, hops⟩
      exact ⟨_, _, (Hive.puts_concat_iff hs hsame he hb htwo huncuts).2 ⟨hparen, rfl⟩, hparse,
        (Chain.operands_join_iff c hcs).2 hops⟩
  · intro s g e t u c d hs hsame he ht hu
    have hputs := fun w => Sybase.puts_right_iff (w := w) (r := r) hs hsame he hb ht.trim_ne_nil
      hu.trim_ne_nil
    have hparse := Chain.Spells.parse_negated (n := "substr") (by decide) ht hu
    have hops : d.ops = [] ↔ d.rest = [] := List.map_eq_nil_iff
    rw [hops, ← d.extend_negation_eq_iff]
    constructor
    · rintro ⟨w, hput, hread⟩
      obtain ⟨hclass, rfl⟩ := (hputs w).1 hput
      have hcall := Option.some.inj (hparse.symm.trans hread)
      exact ⟨hclass, by simpa using (Tree.call.inj hcall).2⟩
    · rintro ⟨hclass, hnegation⟩
      exact ⟨_, (hputs _).2 ⟨hclass, rfl⟩, by rw [hparse, hnegation]⟩

/-- A chain of `||` in front of a literal with a comma, and an operation in front of a number. -/
theorem Dialect.operands_kept_chain :
    (∃ s w tree, Hive.pipeline.function? "hive.concat" = some s ∧
      s.Puts (some ' ') (called "CONCAT" " " ["a||b", " 'x, y' "]) " FROM t" w ∧
        parse w = some (.group tree) ∧ tree.operands.length = 3) ∧
    ∃ s w, Sybase.pipeline.function? "sybase.right" = some s ∧
      s.Puts none (called "right" [] ["a + b", "2"]) " FROM t" w ∧ (parse w).isSome = true := by
  constructor
  · have hwords : Chain.SpellsTrimmed ⟨.word "a", [(.concat, .word "b")]⟩ "a||b" := by decide
    have hliteral : Chain.SpellsTrimmed ⟨.literal "'x, y'", []⟩ " 'x, y' " := by decide
    obtain ⟨s, hs⟩ : ∃ s, Hive.pipeline.function? "hive.concat" = some s := ⟨_, rfl⟩
    obtain ⟨w, tree, hput, hparse, hoperands⟩ :=
      ((operands_kept_iff (b := some ' ') (by decide) " FROM t").1 (e := " ") hs (g := "CONCAT")
        (by decide) (by decide) hwords (.cons hliteral .nil) (List.cons_ne_nil _ _)).2
        ⟨by decide, by decide, by decide⟩
    exact ⟨s, w, tree, hs, hput, hparse, by rw [hoperands]; rfl⟩
  · have hsum : Chain.SpellsTrimmed ⟨.word "a", [(.plus, .word "b")]⟩ "a + b" := by decide
    have hcount : Chain.SpellsTrimmed ⟨.word "2", []⟩ "2" := by decide
    obtain ⟨s, hs⟩ : ∃ s, Sybase.pipeline.function? "sybase.right" = some s := ⟨_, rfl⟩
    obtain ⟨w, hput, hparse⟩ :=
      ((operands_kept_iff (b := none) rfl " FROM t").2 (e := []) hs (g := "right") (by decide)
        (by simp) hsum hcount).2 ⟨by decide, rfl⟩
    exact ⟨s, w, hs, hput, by rw [hparse]; rfl⟩

/-- A sum is torn apart: by `||`, and by the minus in front of it. -/
theorem Dialect.not_operands_kept :
    (¬ ∀ {c d : Chain} {t u w : Text}, c.Spells t → d.Spells u →
      (Hive.pipeline.apply (selecting ("concat(" ++ t ++ ", " ++ u ++ ")"))).text
        = selecting w →
      ∃ tree, parse w = some (.group tree) ∧ tree.operands = c.tree.operands ++ d.tree.operands) ∧
    ¬ ∀ {c d : Chain} {t u w : Text}, c.Spells t → d.Spells u →
      (Sybase.pipeline.apply (selecting ("RIGHT(" ++ t ++ ", " ++ u ++ ")"))).text
        = selecting w →
      parse w = some (.call "substr" [c.tree, .negation d.tree]) := by
  have hword : ∀ {w : Text}, lex w = [.item (.word w)] → Chain.Spells ⟨.word w, []⟩ w := fun h => h
  constructor
  · intro h
    obtain ⟨hsum, hname, happly⟩ : Chain.Spells ⟨.word "a", [(.plus, .word "b")]⟩ "a + b" ∧
        lex "c" = [.item (.word "c")] ∧
        (Hive.pipeline.apply (selecting ("concat(" ++ "a + b" ++ ", " ++ "c" ++ ")"))).text
          = selecting "(a + b || c)" := by decide +kernel
    obtain ⟨tree, hparse, hoperands⟩ := h hsum (hword hname) happly
    obtain rfl := Tree.group.inj (Option.some.inj
      ((rfl : parse "(a + b || c)" = some (.group _)).symm.trans hparse))
    exact absurd (congrArg List.length hoperands) (by decide)
  · intro h
    obtain ⟨hname, hsum, happly⟩ : lex "s" = [.item (.word "s")] ∧
        Chain.Spells ⟨.word "n", [(.plus, .word "1")]⟩ "n + 1" ∧
        (Sybase.pipeline.apply (selecting ("RIGHT(" ++ "s" ++ ", " ++ "n + 1" ++ ")"))).text
          = selecting "substr(s, -n + 1)" := by decide +kernel
    have hparse := h (hword hname) hsum happly
    have hread : parse "substr(s, -n + 1)" = some (.call "substr" [.item (.word "s"),
      .binary .plus (.negation (.item (.word "n"))) (.item (.word "1"))]) := rfl
    have hargs := (Tree.call.inj (Option.some.inj (hread.symm.trans hparse))).2
    exact absurd (List.cons.inj (List.cons.inj hargs).2).1 (by simp)

end SqlScribe
