import SqlScribe.Dialect.Hive
import SqlScribe.Proofs.Dialect.Rules
import SqlScribe.Proofs.Expression.Arguments

/-!
# Calls of Hive functions

The rules of Hive for functions as maps of trees: `collect_list` gets another name whatever its
arguments are, all others are for calls without calls in them. Main statement: `sound_translation`.
-/

namespace SqlScribe

namespace Hive

open SqlScribe.Expr Pattern CallRule SqlFunction

/-- The functions of Hive and what the rules make of their calls. -/
def translation : Translation where
  targets := ["", "group_concat", "datetime", "strftime"]
  rules := List.zipWith (fun make r => make r) [
    fun r => replaceBy r ["concat"] (fun args => 2 ≤ args.length) noParen fun _ ts => ([], ts),
    fun r => renameTo r "collect_list" "group_concat" (arity 1),
    fun r => idle r,
    fun r => replaceBy r ["from_unixtime"] (arity 1) noParenComma
      fun _ ts => ("datetime".toList, ts ++ ["'unixepoch'".toList]),
    fun r => replaceBy r ["unix_timestamp"] (fun args => args.length ≤ 1) noParen
      fun _ ts => ("strftime".toList,
        "'%s'".toList :: if ts.isEmpty then ["'now'".toList] else ts),
    fun r => replaceBy r ["year", "month", "day"] (arity 1) noParen
      fun g ts => ("strftime".toList, Text.quote (partFormat g.asciiLower) :: ts),
    fun r => idle r] pipeline.functions

theorem rules_translation : translation.rules.map CallRule.rule = pipeline.functions := rfl

theorem distinct : translation.Distinct := ⟨by decide, by decide⟩

/-! ## Rules for whole calls -/

variable {targets : List Text} {name : Text}

/-- Two arguments or more are joined by `||`. -/
theorem concat_of_arguments {m : Match} (h : 2 ≤ (Text.arguments (m.group 1)).length) :
    concat m = '(' :: (Text.join " || " (Text.arguments (m.group 1)) ++ [')']) := by
  unfold concat
  exact if_neg (Nat.not_lt.2 h)

theorem concat_of_group {m : Match} {ts : List Text} (hm : m.group 1 = Text.join [',', ' '] ts)
    (hts : ∀ t ∈ ts, Plain t) (htwo : 2 ≤ ts.length) :
    concat m = (node [] (ts.map atom)).write := by
  have hne : ts ≠ [] := by
    rintro rfl
    exact absurd htwo (by simp)
  have hargs : Text.arguments (Text.join [',', ' '] ts) = ts :=
    Text.arguments_join_spaced hne (fun t ht => (hts t ht).uncut) fun t ht => (hts t ht).trim_eq
  rw [concat_of_arguments (by rwa [hm, hargs]), hm, hargs, write_node, map_write_atom]
  simp [separator]

/-- A call without parentheses among its arguments is found. -/
theorem matchAt?_concat {g e x : Text} {b : Option Char} (hsame : SameLetters g "concat".toList)
    (he : ∀ c ∈ e, isBlank c = true) (hx : ∀ c ∈ x, noParen.has c = true)
    (hb : b.any isWordChar = false) (r : Text) :
    (opening "concat" ++ group 1 (run noParen) ++ literal ")").matchAt? b
        (g ++ (e ++ '(' :: (x ++ [')'] ++ r))) =
      some ⟨b, g ++ (e ++ '(' :: (x ++ [')'])), [(1, x)], r⟩ := by
  have hstop : ∀ y, (')' :: r).head? = some y → noParen.has y = false := fun y hy => by
    rw [← Option.some.inj hy]
    decide
  refine matchAt?_of_opening (e := some ')') (d := [⟨1, x ++ ')' :: r, ')' :: r⟩])
    (fun _ => rfl) hsame
    (by decide) (by decide) he hb ?_ (by rw [List.map_singleton, text_capture])
  rw [List.append_assoc, first_group]
  exact (first_run_append hx hstop).trans (first_literal [')'] r)

theorem tight_concat : Tight (opening "concat" ++ group 1 (run noParen) ++ literal ")") ["concat"]
    fun _ => True :=
  tight_of_opening (by decide) (by decide) fun hu => ⟨hu, trivial⟩

theorem replaces_concat (htarget : [] ∈ targets) :
    Replaces ⟨name, opening "concat" ++ group 1 (run noParen) ++ literal ")", concat⟩ ["concat"]
      (fun args => 2 ≤ args.length) noParen (fun _ ts => ([], ts)) targets fun _ => True where
  tight := tight_concat
  finds := fun hts _ _ t ht c hc => (hts t ht).noParen hc
  writes := fun _ _ hts _ => ⟨by simp, htarget, hts⟩
  puts := by
    intro n g ts b hn hsame hg hts htakes _ hb r
    obtain rfl := List.mem_singleton.1 hn
    exact ⟨_, matchAt?_concat (e := []) hsame (by simp) (fun c => noParen_join hts) hb r, rfl,
      concat_of_group rfl hts (by simpa using htakes)⟩

theorem replaces_fromUnixtime (htarget : "datetime".toList ∈ targets) :
    Replaces ⟨name, call1 "from_unixtime" noParenComma,
        fun m => "datetime(" ++ m.group 1 ++ ", 'unixepoch')"⟩
      ["from_unixtime"] (arity 1) noParenComma
      (fun _ ts => ("datetime".toList, ts ++ ["'unixepoch'".toList])) targets
      fun u => u.count ',' = 0 where
  tight := tight_call1 (by decide) (by decide)
  finds := by
    intro ts hts htakes hcount
    obtain ⟨a, rfl⟩ := eq_singleton_of_arity htakes
    exact noParenComma_of_count hts (by simpa using hcount)
  writes := fun _ _ hts _ => ⟨show ∀ c ∈ "datetime".toList, isLabelChar c = true by decide, htarget,
      fun t ht => by
    rcases List.mem_append.1 ht with ht | ht
    · exact hts t ht
    · rw [List.mem_singleton.1 ht]
      exact Plain.quote (w := "unixepoch".toList) (by decide) (by decide)⟩
  puts := by
    intro n g ts b hn hsame hg hts htakes hk hb r
    obtain rfl := List.mem_singleton.1 hn
    obtain ⟨a, rfl⟩ := eq_singleton_of_arity htakes
    refine ⟨_, matchAt?_call1 hsame (by decide) (by decide) (hts a (by simp)) (hk a (by simp))
      (by decide) hb r, rfl, ?_⟩
    rw [write_node]
    simp [Match.group, Match.group?, separator, Text.join, write]

theorem replaces_unixTimestamp (htarget : "strftime".toList ∈ targets) :
    Replaces ⟨name, opening "unix_timestamp" ++ blanks ++ group 1 (lazyStar (one noParen)) ++ blanks
        ++ literal ")", unixTimestamp⟩ ["unix_timestamp"] (fun args => args.length ≤ 1) noParen
      (fun _ ts => ("strftime".toList,
        "'%s'".toList :: if ts.isEmpty then ["'now'".toList] else ts)) targets fun _ => True where
  tight := by
    have htight : Tight (opening "unix_timestamp" ++ (blanks ++ (group 1 (lazyStar (one noParen))
        ++ blanks)) ++ literal [')']) ["unix_timestamp".toList] fun _ => True := by
      refine tight_of_opening (by decide) (by decide) fun {u} hu => ⟨fun c hc => ?_, trivial⟩
      obtain ⟨v, w, rfl, hv, x, y, rfl, ⟨us, rfl, hus⟩, hy⟩ := hu
      rcases List.mem_append.1 hc with hc | hc
      · exact noParen_of_isBlank (hv c hc)
      · rcases List.mem_append.1 hc with hc | hc
        · obtain ⟨u, hu, hc⟩ := List.mem_flatten.1 hc
          obtain ⟨z, rfl, hz⟩ := hus u hu
          exact List.mem_singleton.1 hc ▸ hz
        · exact noParen_of_isBlank (hy c hc)
    refine htight.of_spells rfl fun {u} hu => ?_
    obtain ⟨v, w, rfl, hv, hw⟩ := hu
    exact ⟨v, w, rfl, spells_append_assoc.1 (spells_append_assoc.1 hv), hw⟩
  finds := fun hts _ _ t ht c hc => (hts t ht).noParen hc
  writes := by
    intro n g ts _ _ hts _
    refine ⟨show ∀ c ∈ "strftime".toList, isLabelChar c = true by decide, htarget,
      List.forall_mem_cons.2 ⟨?_, fun t ht => ?_⟩⟩
    · exact Plain.quote (w := "%s".toList) (by decide) (by decide)
    · split at ht
      · rw [List.mem_singleton.1 ht]
        exact Plain.quote (w := "now".toList) (by decide) (by decide)
      · exact hts t ht
  puts := by
    intro n g ts b hn hsame hg hts htakes hk hb r
    obtain rfl := List.mem_singleton.1 hn
    have hdone : ∀ {a : Text}, (∀ c ∈ a, noParen.has c = true) →
        (∀ c, a.head? = some c → isBlank c = false) →
        (∀ c, a.getLast? = some c → isBlank c = false) →
        (opening "unix_timestamp" ++ blanks ++ group 1 (lazyStar (one noParen)) ++ blanks
          ++ literal ")").matchAt? b (g ++ '(' :: (a ++ [')'] ++ r)) =
            some ⟨b, g ++ '(' :: (a ++ [')']), [(1, a)], r⟩ := by
      intro a ha hhead hlast
      have hstart : ∀ c, (a ++ ')' :: r).head? = some c → isBlank c = false := by
        intro c hc
        cases a with
        | nil => exact Option.some.inj hc ▸ by decide
        | cons x a => exact hhead c hc
      refine matchAt?_of_opening (s := []) (e := some ')') (d := [⟨1, a ++ ')' :: r, ')' :: r⟩])
        (fun _ => rfl) hsame (by decide) (by decide) (by simp) hb ?_
        (by rw [List.map_singleton, text_capture])
      rw [List.append_assoc]
      refine (first_blanks_append (u := []) (by simp) hstart).trans ?_
      rw [first_group]
      exact first_lazyStar_blanks (e := []) ha hlast (by simp) (by decide) (by decide)
        (fun _ => ⟨rfl, rfl⟩) rfl
    cases ts with
    | nil =>
      refine ⟨_, hdone (a := []) (by simp) (by simp) (by simp), rfl, ?_⟩
      rw [write_node]
      simp [unixTimestamp, Match.group, Match.group?, separator, Text.join, write]
    | cons a ts =>
      obtain rfl : ts = [] := by simpa using htakes
      have ha := hts a (by simp)
      refine ⟨_, hdone (fun c => ha.noParen) ha.head ha.last, rfl, ?_⟩
      rw [write_node]
      obtain ⟨x, a, rfl⟩ := List.exists_cons_of_ne_nil ha.ne_nil
      simp [unixTimestamp, Match.group, Match.group?, separator, Text.join, write]

/-- The names of the rule for parts of a date. -/
def partNames : List Text := ["year", "month", "day"]

/-- The opening of a call of one of the functions. -/
theorem of_spells_partNames {u : Text}
    (h : (edge ++ group 1 (oneOf [letters "year", letters "month", letters "day"]) ++ blanks
      ++ literal "(").Spells u) :
    ∃ n ∈ partNames, ∃ g e, u = g ++ e ++ ['('] ∧ SameLetters g n ∧ ∀ c ∈ e, isBlank c = true := by
  obtain ⟨v, s, rfl, ⟨v, e, rfl, ⟨z, g, rfl, hz, hg⟩, he⟩, hs⟩ := h
  obtain rfl : z = [] := hz
  obtain rfl := spells_literal.1 hs
  have hnames : (oneOf (partNames.map letters)).Spells g := hg
  obtain ⟨n, hn, hsame⟩ := of_spells_oneOf hnames
  exact ⟨n, hn, g, e, rfl, hsame, he⟩

theorem datePart_of_groups {m : Match} {g a : Text} (hg : m.group 1 = g) (ha : m.group 2 = a) :
    datePart m = (node "strftime".toList
      ((Text.quote (partFormat g.asciiLower) :: [a]).map atom)).write := by
  unfold datePart
  rw [hg, ha, write_node, map_write_atom]
  simp [separator, Text.join, Text.quote]

theorem matchAt?_dateParts {n g a : Text} {b : Option Char} (hn : n ∈ partNames)
    (hsame : SameLetters g n) (hg : ∀ c ∈ g, isLabelChar c = true) (ha : Plain a)
    (hb : b.any isWordChar = false) (r : Text) :
    (edge ++ group 1 (oneOf [letters "year", letters "month", letters "day"]) ++ blanks
      ++ literal "(" ++ argument 2 noParen ++ literal ")").matchAt? b
        (g ++ '(' :: (a ++ [')'] ++ r)) =
      some ⟨b, g ++ '(' :: (a ++ [')']), [(2, a), (1, g)], r⟩ := by
  have hlabels : ∀ n ∈ partNames, n ≠ [] ∧ ∀ c ∈ n, isLabelChar c = true := by decide
  have hparen : ∀ y, ('(' :: (a ++ ')' :: r)).head? = some y → y = '(' :=
    fun y hy => (Option.some.inj hy).symm
  have hfirst : (edge ++ group 1 (oneOf [letters "year", letters "month", letters "day"]) ++ blanks
      ++ literal "(" ++ argument 2 noParen ++ literal ")").first
        ⟨b, (g ++ '(' :: (a ++ [')'])) ++ r, []⟩ some = some ⟨some ')', r,
          [⟨2, a ++ ')' :: r, ')' :: r⟩,
            ⟨1, g ++ '(' :: (a ++ ')' :: r), '(' :: (a ++ ')' :: r)⟩]⟩ := by
    have happ : (g ++ '(' :: (a ++ [')'])) ++ r = g ++ '(' :: (a ++ ')' :: r) := by simp
    simp only [first_append, happ]
    obtain ⟨x, g, rfl⟩ := List.exists_cons_of_ne_nil (hsame.ne_nil (hlabels n hn).1)
    rw [List.cons_append, first_edge hb (isWordChar_of_isLabelChar (hg x List.mem_cons_self)),
      first_group, ← List.cons_append]
    refine first_oneOf_letters partNames ⟨n, hn, hsame⟩ (fun v s hvs hs => ?_)
      (fun y hy => ?_) ?_
    · obtain ⟨y, s, rfl⟩ := List.exists_cons_of_ne_nil hs
      have hy := hg y (by rw [hvs]; simp)
      refine first_blanks_literal_of_ne (fun z hz => ?_) fun hz => ?_
      · exact Option.some.inj hz ▸ isBlank_of_isLabelChar hy
      · exact absurd (Option.some.inj hz ▸ hy) (by decide)
    · rw [hparen y hy]
      decide
    · refine (first_blanks_append (u := []) (by simp) fun y hy => ?_).trans ?_
      · rw [hparen y hy]
        decide
      · refine (first_literal ['('] _).trans ?_
        exact first_argument (s := []) (e := []) (by simp) ha.ne_nil (fun c => ha.noParen) ha.head
          ha.last (by simp) (by decide) (by decide) rfl
  have hmatch := matchAt?_of_first hfirst (by simp)
  rw [List.append_assoc, List.cons_append] at hmatch
  rw [hmatch, List.map_cons, List.map_singleton, text_capture, text_capture]

theorem replaces_dateParts (htarget : "strftime".toList ∈ targets) :
    Replaces
      ⟨name, edge ++ group 1 (oneOf [letters "year", letters "month", letters "day"]) ++ blanks
        ++ literal "(" ++ argument 2 noParen ++ literal ")", datePart⟩ partNames (arity 1) noParen
      (fun g ts => ("strftime".toList, Text.quote (partFormat g.asciiLower) :: ts)) targets
      fun _ => True where
  tight := by
    have hlabels : ∀ n ∈ partNames, n ≠ [] ∧ ∀ c ∈ n, isLabelChar c = true := by decide
    refine ⟨⟨rfl, hlabels, fun {u} hu => ?_⟩, fun {u} hu => ?_⟩
    · obtain ⟨v, w, rfl, ⟨o, x, rfl, ho, hx⟩, hw⟩ := hu
      obtain ⟨n, hn, g, e, rfl, hg, he⟩ := of_spells_partNames ho
      exact ⟨n, hn, g, e, x ++ w, by simp, hg, he⟩
    · obtain ⟨v, w, rfl, ⟨o, x, rfl, ho, hx⟩, hw⟩ := hu
      obtain ⟨n, hn, g, e, rfl, hg, he⟩ := of_spells_partNames ho
      refine ⟨g ++ e, x, ?_, fun hc => ?_, fun c hc => ?_, trivial⟩
      · rw [spells_literal.1 hw]
        simp
      · rcases List.mem_append.1 hc with hc | hc
        · exact absurd (hg.isWordChar (hlabels n hn).2 _ hc) (by decide)
        · exact absurd (he _ hc) (by decide)
      · exact (of_spells_argument hx c hc).elim noParen_of_isBlank id
  finds := fun hts _ _ t ht c hc => (hts t ht).noParen hc
  writes := by
    intro n g ts _ _ hts _
    refine ⟨show ∀ c ∈ "strftime".toList, isLabelChar c = true by decide, htarget,
      List.forall_mem_cons.2 ⟨?_, hts⟩⟩
    rw [partFormat]
    repeat' split
    all_goals exact Plain.quote (by decide) (by decide)
  puts := by
    intro n g ts b hn hsame hg hts htakes hk hb r
    obtain ⟨a, rfl⟩ := eq_singleton_of_arity htakes
    have ha := hts a (by simp)
    exact ⟨_, matchAt?_dateParts hn hsame hg ha hb r, rfl, datePart_of_groups rfl rfl⟩

/-! ## Rules that find no call -/

/-- The pattern of a lateral view. -/
def lateralView : Pattern :=
  blanks ++ edge ++ letters "LATERAL" ++ blanks1 ++ letters "VIEW" ++ blanks1
    ++ letters "explode" ++ blanks ++ literal "(" ++ run (.other (.among [')']))
    ++ literal ")" ++ blanks1 ++ run1 .word ++ blanks1 ++ letters "AS" ++ blanks1
    ++ run1 .word

/-- The front of a lateral view: its first word with a blank behind it, up to the parenthesis. -/
theorem of_spells_lateralView {u : Text} (h : lateralView.Spells u) :
    ∃ e l c w s, u = e ++ l ++ c :: w ++ '(' :: s ∧ (∀ x ∈ e, isBlank x = true) ∧ l ≠ [] ∧
      (∀ x ∈ l, isWordChar x = true) ∧ isBlank c = true ∧
      ∀ x ∈ w, isWordChar x = true ∨ isBlank x = true := by
  -- what stands behind the parenthesis
  obtain ⟨_, b8, rfl, ⟨_, b7, rfl, ⟨_, b6, rfl, ⟨_, b5, rfl, ⟨_, b4, rfl, ⟨_, b3, rfl, ⟨_, b2, rfl,
    ⟨_, b1, rfl, h, -⟩, -⟩, -⟩, -⟩, -⟩, -⟩, -⟩, -⟩ := h
  obtain ⟨_, o, rfl, ⟨_, d, rfl, ⟨_, k, rfl, ⟨_, f, rfl, ⟨_, v, rfl, ⟨_, s, rfl, ⟨_, l, rfl,
    ⟨e, z, rfl, he, hz⟩, hl⟩, hs⟩, hv⟩, hf⟩, hk⟩, hd⟩, ho⟩ := h
  obtain rfl : z = [] := hz
  obtain rfl := spells_literal.1 ho
  obtain ⟨_, t, rfl, ⟨c, rfl, hc⟩, ht⟩ := hs
  obtain ⟨_, j, rfl, ⟨i, rfl, hi⟩, hj⟩ := hf
  have hlateral := spells_letters.1 hl
  have hview := spells_letters.1 hv
  have hexplode := spells_letters.1 hk
  refine ⟨e, l, c, t ++ v ++ i :: j ++ k ++ d, b1 ++ b2 ++ b3 ++ b4 ++ b5 ++ b6 ++ b7 ++ b8,
    by simp, he, hlateral.ne_nil (by decide),
    hlateral.isWordChar (by decide), hc, fun x hx => ?_⟩
  simp only [List.mem_append, List.mem_cons] at hx
  rcases hx with (((hx | hx) | rfl | hx) | hx) | hx
  · exact Or.inr (ht x hx)
  · exact Or.inl (hview.isWordChar (by decide) x hx)
  · exact Or.inr hi
  · exact Or.inr (hj x hx)
  · exact Or.inl (hexplode.isWordChar (by decide) x hx)
  · exact Or.inr (hd x hx)

/-- A lateral view does not begin at the name of a call, and not at a space in front of it: a
blank stands behind its first word. -/
theorem matchAt?_lateralView {b : Option Char} {e g : Text} (he : e = [] ∨ e = [' '])
    (hg : ∀ c ∈ g, isLabelChar c = true) (t : Text) :
    lateralView.matchAt? b (e ++ g ++ '(' :: t) = none := by
  by_contra hne
  obtain ⟨m, hm⟩ := Option.ne_none_iff_exists'.1 hne
  have hof := isOf_of_matchAt? hm
  obtain ⟨v, l, c, w, s, htext, hv, hl, hword, hc, hw⟩ := of_spells_lateralView hof.spells
  have happ := hof.text_append
  rw [htext, List.append_assoc, List.cons_append] at happ
  have hleft : '(' ∉ v ++ l ++ c :: w := by
    intro hx
    simp only [List.mem_append, List.mem_cons] at hx
    rcases hx with (hx | hx) | rfl | hx
    · exact absurd (hv _ hx) (by decide)
    · exact absurd (hword _ hx) (by decide)
    · exact absurd hc (by decide)
    · exact (hw _ hx).elim (fun h => absurd h (by decide)) fun h => absurd h (by decide)
  have hright : '(' ∉ e ++ g := by
    intro hx
    rcases List.mem_append.1 hx with hx | hx
    · rcases he with rfl | rfl
      · exact absurd hx List.not_mem_nil
      · exact absurd hx (by decide)
    · exact paren_not_mem_of_label hg hx
  obtain ⟨hfront, -⟩ := Text.eq_of_append_cons_eq hleft hright happ
  -- the blank is in the name, since a word stands in front of it
  have hmem : c ∈ g := by
    obtain ⟨x, l, rfl⟩ := List.exists_cons_of_ne_nil hl
    rcases he with rfl | rfl
    · rw [List.nil_append] at hfront
      exact hfront ▸ by simp
    · cases v with
      | nil =>
        obtain ⟨rfl, -⟩ := List.cons.inj hfront
        exact absurd (hword ' ' List.mem_cons_self) (by decide)
      | cons d v =>
        have hrest : v ++ x :: l ++ c :: w = g := (List.cons.inj hfront).2
        exact hrest ▸ by simp
  rw [isBlank_of_isLabelChar (hg c hmem)] at hc
  exact Bool.noConfusion hc

theorem calling_lateralView : Calling lateralView where
  reads := by
    intro m b t hm
    obtain ⟨v, l, c, w, s, htext, hv, hl, hword, hc, hw⟩ := of_spells_lateralView hm.spells
    refine ⟨v ++ l ++ c :: w, s ++ m.after, ?_, by simp, fun x hx => ?_⟩
    · rw [← hm.text_append, htext]
      simp
    · simp only [List.mem_append, List.mem_cons] at hx
      rcases hx with (hx | hx) | rfl | hx
      · exact Or.inr (hv x hx)
      · exact Or.inl (hword x hx)
      · exact Or.inr hc
      · exact hw x hx
  inside := fun t _ hg => matchAt?_lateralView (Or.inl rfl) hg t
  spaced := fun b _ t hg => matchAt?_lateralView (e := [' ']) (Or.inr rfl) hg t

/-- Without backticks there are no names between backticks. -/
theorem applyTo_backticks {q : Pattern} {f : Match → Text} {t : Text} (ht : '\x60' ∉ t) :
    (TextRule.mk name (literal "\x60" ++ q ++ literal "\x60") f).applyTo t = t := by
  refine TextRule.applyTo_eq_self_of_starts (w := "\x60".toList)
    (fun u hu => prefix_of_spells_literal_seq_seq hu) fun h => ht (h.subset (by decide))

/-- **The functions of Hive.** Every rule for functions is a map of trees. -/
theorem sound_translation : translation.Sound := by
  intro s hs
  have hmem := hs
  simp only [translation, pipeline, List.zipWith, List.mem_cons, List.not_mem_nil, or_false] at hs
  rcases hs with rfl | rfl | rfl | rfl | rfl | rfl | rfl
  · exact (replaces_concat (by decide)).sound_of_mem distinct hmem
  · exact sound_renameTo rfl (fun _ => rfl) (by decide) (by decide) (by decide)
  · exact sound_idle_of_rewrites (rewrites_idle calling_lateralView fun r hg _ =>
      matchAt?_lateralView (Or.inl rfl) hg r)
  · exact (replaces_fromUnixtime (by decide)).sound_of_mem distinct hmem
  · exact (replaces_unixTimestamp (by decide)).sound_of_mem distinct hmem
  · exact (replaces_dateParts (by decide)).sound_of_mem distinct hmem
  · exact sound_idle fun he => applyTo_backticks fun hc => he.mark_not_mem _ hc (by decide)

end Hive

end SqlScribe
