import SqlScribe.Proofs.Clause.Unwrapped
import SqlScribe.Proofs.Dialect.LastWord
import SqlScribe.Proofs.Expression.Arguments
import SqlScribe.Proofs.Pattern.Heads
import SqlScribe.Proofs.Pattern.Parse

/-!
# Words that the rules for Sybase write

Nothing that a rule for types or functions writes holds the word `LIMIT`, and no match makes the
word stand at the top level where it did not, as long as the match holds its quotations whole. A
name that loses its brackets may be the word, or make it with the characters beside it. Main
statements:

* `Sybase.spares_types`: a clause and a rule for types;
* `Sybase.addsNone_calls`: one match of a rule for calls, where it is `Sybase.Mild`;
* `Sybase.spares_functions`: a clause and a rule for functions, where it is `Sybase.MildIn` the
  clause.
-/

namespace SqlScribe

open Outline Pattern Text

/-! ## Idle classes -/

/-- The class has no mark of a quotation and no parenthesis. -/
def CharClass.isIdle : CharClass → Bool
  | letter a => isLabelChar (simpleFold a)
  | blank | decimal => true
  | among cs => cs.all SqlScribe.isIdle
  | _ => false

theorem CharClass.isIdle_sound {k : CharClass} (hk : k.isIdle = true) {c : Char}
    (hc : k.has c = true) : SqlScribe.isIdle c = true := by
  cases k with
  | letter a =>
    have hlabel : isLabelChar (simpleFold a) = true := hk
    rw [has, beq_iff_eq] at hc
    rw [hc] at hlabel
    exact isIdle_of (by decide) (isWordChar_of_isLabelChar_simpleFold hlabel)
  | blank => exact isIdle_of_isBlank hc
  | decimal => exact isIdle_of_isIdentifierChar (isIdentifierChar_of_isDecimal hc)
  | among cs =>
    rw [has, List.contains_iff_mem] at hc
    exact List.all_eq_true.1 hk c hc
  | any | span | word | either | other => exact absurd hk Bool.false_ne_true

theorem Pattern.idle_of_spells {p : Pattern} {u : Text} (hp : p.allows CharClass.isIdle = true)
    (h : p.Spells u) : ∀ c ∈ u, isIdle c = true := fun c hc => by
  obtain ⟨k, hk, hhas⟩ := allowed_of_spells hp h c hc
  exact k.isIdle_sound hk hhas

namespace Sybase

variable {n : Nesting} {m : Match} {b : Option Char} {t : Text}

/-- The word that opens the last clause. -/
def limitWord : Text := "LIMIT"

/-! ## Rules for types -/

/-- One match of a rule for types. -/
theorem addsNone_types {r : TextRule} (hr : r ∈ pipeline.types) (hn : IsClosing n.closing)
    (hm : r.pattern.matchAt? b t = some m) : AddsNone limitWord n m.text (r.replacement m) := by
  have hplain : ∀ {p : Pattern} (v : Text), p.allows CharClass.isIdle = true →
      (∀ c ∈ v, isIdentifierChar c = true) → (∃ c ∈ v, c.toUpper ∉ limitWord) →
      p.Spells m.text → AddsNone limitWord n m.text v := fun _ hp hv hother hspells =>
    .of_quiet hn (nestingAfter_of_idle hn (idle_of_spells hp hspells)) (quiet_of_chars hv hother)
  have hspells := (isOf_of_matchAt? hm).spells
  simp only [pipeline, List.mem_cons, List.not_mem_nil, or_false] at hr
  rcases hr with rfl | rfl | rfl | rfl | rfl
  · exact hplain "TEXT" (by decide) (by decide +kernel) ⟨'X', by decide, by decide⟩ hspells
  · exact hplain "BLOB" (by decide) (by decide +kernel) ⟨'B', by decide, by decide⟩ hspells
  · exact hplain "INTEGER" (by decide) (by decide +kernel) ⟨'N', by decide, by decide⟩ hspells
  · exact hplain "REAL" (by decide) (by decide +kernel) ⟨'R', by decide, by decide⟩ hspells
  · show AddsNone limitWord n m.text (temporalType m)
    obtain ⟨u, fs, v, gs, htext, hgroups, hword, hopt⟩ := parses_of_matchAt? hm
    rcases hopt with ⟨hs, rfl, -⟩ | ⟨rfl, rfl⟩
    · have hgroup : m.group? 1 = some v := by
        rw [Match.group?, hgroups]
        rfl
      rw [temporalType, hgroup]
      exact .refl limitWord n m.text
    · have hnone : m.group? 1 = none := by
        rw [Match.group?, hgroups, hword.eq_nil rfl]
        rfl
      rw [List.append_nil] at htext
      rw [temporalType, hnone]
      exact hplain "TEXT" (by decide) (by decide +kernel) ⟨'X', by decide, by decide⟩
        (htext ▸ hword.spells)

/-! ## Rules for functions -/

/-- A match that stands where the nesting is `n` holds its quotations whole, as a whole and in every
argument. If it is a name in brackets, the nesting is the same behind it, with them and without. -/
structure Mild (n : Nesting) (m : Match) : Prop where
  whole : ∀ t ∈ m.text :: m.groups.map Prod.snd, closingAt n.closing t = n.closing
  named : m.text.head? = some '[' → nestingAfter n m.text = n ∧ nestingAfter n (m.group 1) = n

instance (n : Nesting) (m : Match) : Decidable (Mild n m) :=
  decidable_of_iff
    ((∀ t ∈ m.text :: m.groups.map Prod.snd, closingAt n.closing t = n.closing) ∧
      (m.text.head? = some '[' → nestingAfter n m.text = n ∧ nestingAfter n (m.group 1) = n))
    ⟨fun ⟨hwhole, hnamed⟩ => ⟨hwhole, hnamed⟩, fun h => ⟨h.whole, h.named⟩⟩

/-- All matches of a rule in a text are mild, and when the rule is applied, no identifier that has a
character of a name without its brackets is `LIMIT`. -/
structure MildIn (r : TextRule) (t : Text) : Prop where
  mild : ∀ x ∈ r.pattern.placedIn t, Mild x.1 x.2
  noneMarked : NoneMarked limitWord (unwrapped r.replacement (r.pattern.pieces t))

instance (r : TextRule) (t : Text) : Decidable (MildIn r t) :=
  decidable_of_iff
    ((∀ x ∈ r.pattern.placedIn t, Mild x.1 x.2) ∧
      NoneMarked limitWord (unwrapped r.replacement (r.pattern.pieces t)))
    ⟨fun ⟨hmild, hnone⟩ => ⟨hmild, hnone⟩, fun h => ⟨h.mild, h.noneMarked⟩⟩

theorem Mild.group (h : Mild n m) {i : Nat} {u : Text} (hu : (i, u) ∈ m.groups) :
    closingAt n.closing u = n.closing :=
  h.whole u (List.mem_cons_of_mem _ (List.mem_map_of_mem hu))

theorem idle_name {name g e : Text} (hlabels : ∀ c ∈ name, isLabelChar c = true)
    (hg : SameLetters g name) (he : ∀ c ∈ e, isBlank c = true) : ∀ c ∈ g ++ e, isIdle c = true := by
  intro c hc
  rcases List.mem_append.1 hc with hc | hc
  · exact isIdle_of (by decide) (hg.isWordChar hlabels c hc)
  · exact isIdle_of_isBlank (he c hc)

/-- The name of a function, and the blanks behind it, become another name. -/
theorem addsNone_name (name new : Text) {g e u v : Text} (hn : IsClosing n.closing)
    (hlabels : ∀ c ∈ name, isLabelChar c = true) (hg : SameLetters g name)
    (he : ∀ c ∈ e, isBlank c = true) (hnew : ∀ c ∈ new, isIdentifierChar c = true)
    (hother : ∃ c ∈ new, c.toUpper ∉ limitWord) (h : AddsNone limitWord n u v) :
    AddsNone limitWord n (g ++ (e ++ u)) (new ++ v) := by
  have hfront := nestingAfter_of_idle hn (idle_name hlabels hg he)
  rw [← List.append_assoc]
  refine (AddsNone.of_quiet hn hfront (quiet_of_chars hnew hother)).append ?_
  rwa [hfront]

/-- A rule that gives a function another name. -/
theorem addsNone_opening (name new : Text) (hn : IsClosing n.closing)
    (hlabels : ∀ c ∈ name, isLabelChar c = true) (hnew : ∀ c ∈ new, isIdentifierChar c = true)
    (hother : ∃ c ∈ new, c.toUpper ∉ limitWord) (hm : (opening name).matchAt? b t = some m) :
    AddsNone limitWord n m.text (new ++ ['(']) := by
  obtain ⟨g, e, htext, -, hg, he⟩ := parses_opening (parses_of_matchAt? hm)
  rw [htext]
  exact addsNone_name name new hn hlabels hg he hnew hother (.refl _ _ _)

theorem noParenComma_of_isBlank {c : Char} (h : isBlank c = true) : noParenComma.has c = true := by
  rw [noParenComma, CharClass.has, Bool.not_eq_true', ← Bool.not_eq_true, CharClass.has,
    List.contains_iff_mem]
  intro hc
  have hall : ['(', ')', ','].all (fun c => !isBlank c) = true := by decide
  simpa [h] using List.all_eq_true.1 hall c hc

/-- An argument without parentheses leaves the nesting as it was if it does so to quotations. -/
theorem nestingAfter_argument {u : Text} (hn : IsClosing n.closing)
    (hu : ∀ c ∈ u, noParen.has c = true) (h : closingAt n.closing u = n.closing) :
    nestingAfter (n.read '(') u = n.read '(' := by
  refine nestingAfter_of_closing (fun c hc => ?_) ?_
  · have hclass := hu c hc
    simp only [noParen, CharClass.has, List.contains_eq_mem, List.mem_cons, List.not_mem_nil,
      or_false, Bool.not_eq_true', decide_eq_false_iff_not, not_or] at hclass
    exact hclass
  · rwa [closing_read_of_not_mem hn (by decide)]

/-- A call with two arguments that stay in their order. -/
theorem addsNone_call2 (name new : Text) {s : Text} {d : Char} (hn : IsClosing n.closing)
    (hlabels : ∀ c ∈ name, isLabelChar c = true) (hnew : ∀ c ∈ new, isIdentifierChar c = true)
    (hother : ∃ c ∈ new, c.toUpper ∉ limitWord) (hd : isIdentifierChar d = false)
    (hidle : ∀ c ∈ d :: s, isIdle c = true)
    (hs : runAfter [] s = [] ∧ passesNone limitWord [] s = true)
    (hm : (call2 name noParenComma).matchAt? b t = some m) : AddsNone limitWord n m.text
      (new ++ ('(' :: (m.group 1 ++ (d :: s ++ (m.group 2 ++ [')']))))) := by
  obtain ⟨g, e, x, u, x', y, v, y', htext, hgroups, hg, hblank, -⟩ :=
    parses_call2 (fun _ => noParenComma_of_isBlank) (parses_of_matchAt? hm)
  simp only [List.mem_append, or_imp, forall_and] at hblank
  obtain ⟨⟨⟨⟨he, hx⟩, hx'⟩, hy⟩, hy'⟩ := hblank
  have hfirst : m.group 1 = u := by rw [Match.group, Match.group?, hgroups]; rfl
  have hsecond : m.group 2 = v := by rw [Match.group, Match.group?, hgroups]; rfl
  rw [htext, hfirst, hsecond]
  refine addsNone_name name new hn hlabels hg he hnew hother ?_
  rw [← List.cons_append, ← List.singleton_append (x := '(')]
  refine (AddsNone.cons_blanks hn (by decide) hx).append ((AddsNone.refl _ _ u).append ?_)
  have hbehind := isClosing_nestingAfter (isClosing_nestingAfter hn ('(' :: x)) u
  have hcomma : x' ++ ',' :: (y ++ (v ++ (y' ++ [')']))) = (x' ++ ',' :: y)
      ++ (v ++ (y' ++ [')'])) := by
    rw [List.append_assoc, List.cons_append]
  rw [hcomma]
  exact (AddsNone.comma hbehind hx' hy hd hidle hs).append ((AddsNone.refl _ _ v).append
    (AddsNone.blanks_append (c := ')')
      (isClosing_nestingAfter (isClosing_nestingAfter hbehind _) v) (by decide) hy'))

/-- A call whose arguments change their places. -/
theorem addsNone_charindex (hn : IsClosing n.closing) (hmild : Mild n m)
    (hm : (call2 "CHARINDEX" noParenComma).matchAt? b t = some m) : AddsNone limitWord n m.text
      ("instr(" ++ m.group 2 ++ ", " ++ m.group 1 ++ ")") := by
  obtain ⟨g, e, x, u, x', y, v, y', htext, hgroups, hg, hblank, hclass⟩ :=
    parses_call2 (fun _ => noParenComma_of_isBlank) (parses_of_matchAt? hm)
  simp only [List.mem_append, or_imp, forall_and] at hblank hclass
  obtain ⟨⟨⟨⟨he, hx⟩, hx'⟩, hy⟩, hy'⟩ := hblank
  have hfirst : m.group 1 = u := by rw [Match.group, Match.group?, hgroups]; rfl
  have hsecond : m.group 2 = v := by rw [Match.group, Match.group?, hgroups]; rfl
  have hu := nestingAfter_argument hn (fun c hc => noParen_of_noParenComma (hclass.1 c hc))
    (hmild.group (i := 1) (by rw [hgroups]; simp))
  have hv := nestingAfter_argument hn (fun c hc => noParen_of_noParenComma (hclass.2 c hc))
    (hmild.group (i := 2) (by rw [hgroups]; simp))
  have hswap := AddsNone.swap (w := limitWord) (c := '(') (d := ')') (s := x) (p := x') (r := y)
    (q := y') (by decide) hn (by decide) (by decide) hu hv fun c hc => by
      simp only [List.mem_append] at hc
      rcases hc with ((hc | hc) | hc) | hc
      · exact hx c hc
      · exact hx' c hc
      · exact hy c hc
      · exact hy' c hc
  have hname := addsNone_name "CHARINDEX" "instr" hn (by decide) hg
    he (by decide) ⟨'n', by decide, by decide⟩ hswap
  have hnew : "instr(" ++ v ++ ", " ++ u ++ ")"
      = "instr".toList ++ '(' :: (v ++ ',' :: ([' '] ++ (u ++ [])) ++ [')']) := by
    rw [show "instr(".toList = "instr".toList ++ ['('] from rfl,
      show ", ".toList = ',' :: [' '] from rfl, show ")".toList = [')'] from rfl]
    simp
  rw [htext, hfirst, hsecond, hnew]
  simpa only [List.append_assoc, List.cons_append, List.nil_append, List.append_nil] using hname

/-- A call whose argument keeps its quotations whole leaves the nesting as it was. -/
theorem nestingAfter_call {g e u : Text} (hn : IsClosing n.closing)
    (hidle : ∀ c ∈ g ++ e, isIdle c = true) (hu : ∀ c ∈ u, noParen.has c = true)
    (h : closingAt n.closing (g ++ (e ++ '(' :: (u ++ [')']))) = n.closing) :
    nestingAfter n (g ++ (e ++ '(' :: (u ++ [')']))) = n := by
  rw [← List.append_assoc] at h ⊢
  have hfront : closingAt n.closing (g ++ e) = n.closing :=
    closingAt_of_not_mem hn fun c hc => not_mem_quoteMarks_of_isIdle (hidle c hc)
  have hclosing : closingAt n.closing u = n.closing := by
    have hopen : closingAfter n.closing '(' = n.closing := closingAfter_of_not_mem hn (by decide)
    rw [closingAt_append, hfront, closingAt, List.foldl_cons, hopen, ← closingAt, closingAt_append]
      at h
    have hclose : closingAfter (closingAt n.closing u) ')' = closingAt n.closing u :=
      closingAfter_of_not_mem (isClosing_closingAt hn u) (by decide)
    rwa [closingAt, List.foldl_cons, hclose] at h
  rw [nestingAfter_append, nestingAfter_of_idle hn hidle]
  exact nestingAfter_parens hn (nestingAfter_argument hn hu hclosing)

/-- What is spelled behind a pattern by others without marks. -/
theorem idle_of_spells_foldl {p : Pattern} {ps : List Pattern} {u : Text}
    (hps : ∀ q ∈ ps, q.allows CharClass.isIdle = true)
    (h : (ps.foldl (fun p q => p ++ q) p).Spells u) :
    ∃ v w, u = v ++ w ∧ p.Spells v ∧ ∀ x ∈ w, isIdle x = true := by
  induction ps generalizing p with
  | nil => exact ⟨u, [], (List.append_nil u).symm, h, by simp⟩
  | cons q ps ih =>
    obtain ⟨hq, hps⟩ := List.forall_mem_cons.1 hps
    obtain ⟨_, w, rfl, ⟨v, w', rfl, hp, hw'⟩, hw⟩ := ih hps h
    refine ⟨v, w' ++ w, List.append_assoc .., hp, fun x hx => ?_⟩
    exact (List.mem_append.1 hx).elim (idle_of_spells hq hw' x) (hw x)

/-- What is spelled behind the opening of a call, up to a sign. -/
theorem exists_enclosed {name sign u : Text} (ps : List Pattern)
    (hps : ∀ q ∈ ps, q.allows CharClass.isIdle = true)
    (h : (ps.foldl (fun p q => p ++ q) (opening name) ++ literal sign).Spells u) :
    ∃ g e v, u = g ++ (e ++ '(' :: (v ++ sign)) ∧ SameLetters g name ∧
      (∀ x ∈ e, isBlank x = true) ∧ ∀ x ∈ v, isIdle x = true := by
  obtain ⟨_, _, rfl, hopen, hsign⟩ := h
  obtain ⟨_, v, rfl, ho, hv⟩ := idle_of_spells_foldl hps hopen
  obtain ⟨g, e, rfl, hg, he⟩ := of_spells_opening ho
  obtain rfl := spells_literal.1 hsign
  exact ⟨g, e, v, by simp, hg, he, hv⟩

/-- The formats of parts of a date. -/
theorem partFormat_mem (part : Text) :
    partFormat part ∈ ["%Y".toList, "%m".toList, "%d".toList, "%H".toList, "%M".toList,
      "%S".toList] := by
  unfold partFormat
  split
  · exact by simp
  repeat' split
  all_goals simp

/-- A part of a date: what stands in front of the date becomes a format. -/
theorem addsNone_datepart (hn : IsClosing n.closing)
    (hm : (opening "DATEPART" ++ blanks ++ group 1 (oneOf (dateParts.map letters)) ++ blanks
      ++ literal "," ++ argument 2 noParen ++ literal ")").matchAt? b t = some m) :
    AddsNone limitWord n m.text (datePart m) := by
  obtain ⟨_, _, z, _, htext, hgroups, ⟨y, fs, v, _, rfl, rfl, hfront, harg⟩, hclose⟩ :=
    parses_of_matchAt? hm
  obtain ⟨rfl, rfl⟩ := parses_literal hclose
  obtain ⟨r, a, r', rfl, rfl, hr, -, hr'⟩ := parses_argument (k := noParen)
    (fun _ h => noParen_of_noParenComma (noParenComma_of_isBlank h)) harg
  have hdate : m.group 2 = a := by
    have hlookup : m.groups.lookup 2 = some a := by
      rw [hgroups, List.nil_append, List.singleton_append, List.lookup_cons_self]
    rw [Match.group, Match.group?, hlookup, Option.getD_some]
  obtain ⟨g, e, s, rfl, hg, he, hs⟩ := exists_enclosed
    [blanks, group 1 (oneOf (dateParts.map letters)), blanks] (by decide) hfront.spells
  have hformat : ∀ f ∈
      ["%Y".toList, "%m".toList, "%d".toList, "%H".toList, "%M".toList, "%S".toList],
      (∀ c ∈ f, isIdle c = true) ∧ runAfter [] (quote f ++ [',', ' ']) = [] ∧
        passesNone limitWord [] (quote f ++ [',', ' ']) = true := by
    decide
  obtain ⟨hidle, hsigns⟩ := hformat _ (partFormat_mem (m.group 1).asciiUpper)
  show AddsNone limitWord n m.text
    ("strftime('" ++ partFormat (m.group 1).asciiUpper ++ "', " ++ m.group 2 ++ ")")
  generalize partFormat (m.group 1).asciiUpper = f at hidle hsigns ⊢
  rw [hdate, htext]
  have hread : IsClosing (n.read '(').closing := by
    rw [closing_read]
    exact hn.after _
  have hcomma : ∀ {z : Text}, (∀ c ∈ z, isBlank c = true) → ∀ c ∈ ',' :: z, isIdle c = true :=
    fun hz => List.forall_mem_cons.2 ⟨by decide, fun c hc => isIdle_of_isBlank (hz c hc)⟩
  have hnesting : nestingAfter n ('(' :: (quote f ++ [',', ' ']))
      = nestingAfter n ('(' :: (s ++ ',' :: r)) := by
    show nestingAfter (n.read '(') _ = nestingAfter (n.read '(') _
    rw [nestingAfter_append, nestingAfter_quote hread hidle, nestingAfter_append,
      nestingAfter_of_idle hread hs, nestingAfter_of_idle hread (hcomma hr),
      nestingAfter_of_idle hread (hcomma (by decide))]
  have hold : runAfter [] (s ++ ',' :: r) = [] := by
    rw [runAfter_append, runAfter, if_neg (by decide)]
    exact runAfter_of_signs fun c hc => isIdentifierChar_of_isBlank (hr c hc)
  have hinner : IsClosing (nestingAfter n ('(' :: (s ++ ',' :: r))).closing :=
    isClosing_nestingAfter hn _
  have hrest :=
    (AddsNone.of_signs (w := limitWord) (by decide) (by decide) hnesting hold hsigns).append
    ((AddsNone.refl _ _ a).append
      (AddsNone.blanks_append (c := ')') (isClosing_nestingAfter hinner a) (by decide) hr'))
  have hname := addsNone_name "DATEPART" "strftime" hn (by decide)
    hg he (by decide) ⟨'s', by decide, by decide⟩ hrest
  simp only [quote, List.append_assoc, List.cons_append, List.nil_append] at hname ⊢
  exact hname

/-- A call without arguments. -/
theorem addsNone_getdate (hn : IsClosing n.closing)
    (hm : (opening "GETDATE" ++ blanks ++ literal ")").matchAt? b t = some m) :
    AddsNone limitWord n m.text "datetime('now')" := by
  obtain ⟨g, e, v, htext, hg, he, hv⟩ := exists_enclosed [blanks] (by decide)
    (isOf_of_matchAt? hm).spells
  have hread : IsClosing (n.read '(').closing := by
    rw [closing_read]
    exact hn.after _
  have hnesting : nestingAfter n ('(' :: (quote "now" ++ [')']))
      = nestingAfter n ('(' :: (v ++ [')'])) := by
    rw [nestingAfter_parens hn (nestingAfter_of_idle hread hv),
      nestingAfter_parens hn (nestingAfter_quote hread (by decide))]
  have hold : runAfter [] (v ++ [')']) = [] :=
    runAfter_of_last fun c hc => by
      rw [List.getLast?_concat] at hc
      exact Option.some.inj hc ▸ by decide
  rw [htext]
  exact addsNone_name "GETDATE" "datetime" hn (by decide) hg he
    (by decide) ⟨'e', by decide, by decide⟩
    (.of_signs (by decide) (by decide) hnesting hold (by decide))

/-- A pattern is always found at the start. -/
theorem addsNone_patindex (hn : IsClosing n.closing) (hmild : Mild n m)
    (hm : (opening "PATINDEX" ++ run noParen ++ literal ")").matchAt? b t = some m) :
    AddsNone limitWord n m.text "0" := by
  obtain ⟨_, _, htext, ⟨_, u, rfl, ho, hu⟩, hclose⟩ := (isOf_of_matchAt? hm).spells
  obtain ⟨g, e, rfl, hg, he⟩ := of_spells_opening ho
  obtain rfl := spells_literal.1 hclose
  have hshape : m.text = g ++ (e ++ '(' :: (u ++ [')'])) := by
    rw [htext, show ")".toList = [')'] from rfl]
    simp
  have hwhole := hmild.whole m.text List.mem_cons_self
  rw [hshape] at hwhole ⊢
  exact .of_quiet hn (nestingAfter_call hn (idle_name (by decide) hg he) hu hwhole)
    (quiet_of_chars (by decide) ⟨'0', by decide, by decide⟩)

/-- A column that counts. -/
theorem addsNone_identity (hn : IsClosing n.closing)
    (hm : (opening "IDENTITY" ++ blanks ++ run1 .decimal ++ blanks ++ literal "," ++ blanks
      ++ run1 .decimal ++ blanks ++ literal ")").matchAt? b t = some m) :
    AddsNone limitWord n m.text "PRIMARY KEY AUTOINCREMENT" := by
  obtain ⟨g, e, v, htext, hg, he, hv⟩ := exists_enclosed
    [blanks, run1 .decimal, blanks, literal ",", blanks, run1 .decimal, blanks] (by decide)
    (isOf_of_matchAt? hm).spells
  have hread : IsClosing (n.read '(').closing := by
    rw [closing_read]
    exact hn.after _
  have hnesting : nestingAfter n (g ++ e ++ '(' :: (v ++ [')'])) = n := by
    rw [nestingAfter_append, nestingAfter_of_idle hn (idle_name (by decide) hg he)]
    exact nestingAfter_parens hn (nestingAfter_of_idle hread hv)
  have hcut : cut (fun c => !isIdentifierChar c) "PRIMARY KEY AUTOINCREMENT"
      = ["PRIMARY".toList, "KEY".toList, "AUTOINCREMENT".toList] := by decide
  rw [htext, ← List.append_assoc]
  refine .of_quiet hn hnesting (quiet_of_cut (by decide) ?_)
  rw [hcut]
  simp only [List.forall_mem_cons]
  exact ⟨⟨'P', by decide, by decide⟩, ⟨'K', by decide, by decide⟩, ⟨'A', by decide, by decide⟩,
    by simp⟩

/-- **One match of a rule for calls.** -/
theorem addsNone_calls {r : TextRule} (hr : r ∈ pipeline.functions.dropLast)
    (hn : IsClosing n.closing) (hmild : Mild n m) (hm : r.pattern.matchAt? b t = some m) :
    AddsNone limitWord n m.text (r.replacement m) := by
  simp only [pipeline, List.dropLast, List.mem_cons, List.not_mem_nil, or_false] at hr
  rcases hr with rfl | rfl | rfl | rfl | rfl | rfl | rfl | rfl | rfl | rfl
  · exact addsNone_opening "ISNULL" "IFNULL" hn (by decide) (by decide)
      ⟨'N', by decide, by decide⟩ hm
  · exact addsNone_getdate hn hm
  · exact addsNone_datepart hn hm
  · exact addsNone_opening "SUBSTRING" "substr" hn (by decide) (by decide)
      ⟨'s', by decide, by decide⟩ hm
  · exact addsNone_opening "LEN" "length" hn (by decide) (by decide)
      ⟨'n', by decide, by decide⟩ hm
  · exact addsNone_charindex hn hmild hm
  · have hcall := addsNone_call2 "LEFT" "substr" (d := ',') (s := " 1, ") hn
      (by decide) (by decide) ⟨'s', by decide, by decide⟩ (by decide) (by decide +kernel)
      (by decide) hm
    show AddsNone limitWord n m.text ("substr(" ++ m.group 1 ++ ", 1, " ++ m.group 2 ++ ")")
    simp only [List.append_assoc]
    exact hcall
  · have hcall := addsNone_call2 "RIGHT" "substr" (d := ',') (s := " -") hn
      (by decide) (by decide) ⟨'s', by decide, by decide⟩ (by decide) (by decide +kernel)
      (by decide) hm
    show AddsNone limitWord n m.text ("substr(" ++ m.group 1 ++ ", -" ++ m.group 2 ++ ")")
    simp only [List.append_assoc]
    exact hcall
  · exact addsNone_patindex hn hmild hm
  · exact addsNone_identity hn hm

/-- A name in brackets, of which the name is left. -/
theorem unwraps_brackets (hmild : Mild n m) (hm : (literal "["
      ++ group 1 (run1 (.other (.among [']']))) ++ literal "]").matchAt? b t = some m) :
    Unwraps (fun m => m.group 1) n m := by
  obtain ⟨_, _, z, _, htext, hgroups, ⟨o, _, u, _, rfl, rfl, ho, fs, rfl, hu⟩, hclose⟩ :=
    parses_of_matchAt? hm
  obtain ⟨rfl, rfl⟩ := parses_literal ho
  obtain ⟨rfl, rfl⟩ := parses_literal hclose
  have hgroup : m.group 1 = u := by rw [Match.group, Match.group?, hgroups]; rfl
  have hshape : m.text = '[' :: (m.group 1 ++ [']']) := hgroup ▸ htext
  obtain ⟨hnesting, hname⟩ := hmild.named (by rw [hshape]; rfl)
  exact ⟨hshape, hgroup ▸ ne_nil_of_takesSome (by decide) hu.spells, hnesting, hname⟩

/-! ## Clauses -/

variable {c : Clause} {r : TextRule}

/-- **A rule for types** adds no `LIMIT` to a clause. -/
theorem spares_types (hr : r ∈ pipeline.types) :
    Spares limitWord c ⟨c.kind, r.applyTo c.body⟩ := by
  refine spares_replaceAll fun x hx hn => ?_
  obtain ⟨v, t, -, hm⟩ := matchAt?_of_mem_pieces (mem_pieces_of_mem_placed hx)
  exact addsNone_types hr hn hm

/-- **A rule for functions** adds no `LIMIT` to a clause in which it is mild. -/
theorem spares_functions (hr : r ∈ pipeline.functions) (h : MildIn r c.body) :
    Spares limitWord c ⟨c.kind, r.applyTo c.body⟩ := by
  have hmatch : ∀ x ∈ r.pattern.placedIn c.body, ∃ v t, r.pattern.matchAt? v t = some x.2 :=
    fun x hx => by
      obtain ⟨v, t, -, hm⟩ := matchAt?_of_mem_pieces (mem_pieces_of_mem_placed hx)
      exact ⟨_, t, hm⟩
  have hlast : pipeline.functions = pipeline.functions.dropLast ++ [⟨"sybase.bracket_identifiers",
      literal "[" ++ group 1 (run1 (.other (.among [']']))) ++ literal "]", fun m => m.group 1⟩] :=
    rfl
  rw [hlast] at hr
  rcases List.mem_append.1 hr with hr | hr
  · refine spares_replaceAll fun x hx hn => ?_
    obtain ⟨v, t, hm⟩ := hmatch x hx
    exact addsNone_calls hr hn (h.mild x hx) hm
  · obtain rfl := List.mem_singleton.1 hr
    refine spares_unwrapped (by decide) (fun x hx => ?_) h.noneMarked
    obtain ⟨v, t, hm⟩ := hmatch x hx
    exact unwraps_brackets (h.mild x hx) hm

end Sybase

end SqlScribe
