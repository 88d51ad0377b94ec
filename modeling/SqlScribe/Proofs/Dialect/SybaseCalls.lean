import SqlScribe.Dialect.Sybase
import SqlScribe.Proofs.Dialect.Rules
import SqlScribe.Proofs.Expression.Arguments

/-!
# Calls of Sybase functions

The rules of Sybase for functions as maps of trees: `ISNULL`, `SUBSTRING` and `LEN` get other names
whatever their arguments are, all others are for calls without calls in them. Main statement:
`sound_translation`.
-/

namespace SqlScribe

namespace Sybase

open SqlScribe.Expr Pattern CallRule SqlFunction

/-- A part of a date and one more argument. -/
def takesPart : List (Option Text) → Bool
  | [some part, _] => dateParts.contains part.asciiUpper
  | _ => false

/-- The functions of Sybase and what the rules make of their calls. -/
def translation : Translation where
  targets := ["ifnull", "datetime", "strftime", "substr", "length", "instr"]
  rules := List.zipWith (fun make r => make r) [
    fun r => renameTo r "ISNULL" "IFNULL" (arity 2),
    fun r => replaceBy r ["GETDATE"] (arity 0) noParen
      fun _ _ => ("datetime".toList, ["'now'".toList]),
    fun r => replaceBy r ["DATEPART"] takesPart noParen
      fun _ ts => ("strftime".toList,
        (ts.take 1).map (fun part => Text.quote (partFormat part.asciiUpper)) ++ ts.drop 1),
    fun r => renameTo r "SUBSTRING" "substr" (arity 3),
    fun r => renameTo r "LEN" "length" (arity 1),
    fun r => replaceBy r ["CHARINDEX"] (arity 2) noParenComma
      fun _ ts => ("instr".toList, ts.reverse),
    fun r => replaceBy r ["LEFT"] (arity 2) noParenComma
      fun _ ts => ("substr".toList, ts.take 1 ++ "1".toList :: ts.drop 1),
    fun r => replaceBy r ["RIGHT"] (arity 2) noParenComma
      fun _ ts => ("substr".toList, ts.take 1 ++ (ts.drop 1).map ('-' :: ·)),
    fun r => idle r,
    fun r => idle r,
    fun r => idle r] pipeline.functions

theorem rules_translation : translation.rules.map CallRule.rule = pipeline.functions := rfl

theorem distinct : translation.Distinct := ⟨by decide, by decide⟩

/-! ## Rules for whole calls -/

variable {targets : List Text} {name : Text}

theorem replaces_getdate (htarget : "datetime".toList ∈ targets) :
    Replaces ⟨name, opening "GETDATE" ++ blanks ++ literal ")", fun _ => "datetime('now')"⟩
      ["GETDATE"] (arity 0) noParen (fun _ _ => ("datetime".toList, ["'now'".toList])) targets
      fun _ => True where
  tight := tight_of_opening (by decide) (by decide) fun hu =>
    ⟨fun c hc => noParen_of_isBlank (hu c hc), trivial⟩
  finds := fun hts _ _ t ht c hc => (hts t ht).noParen hc
  writes := fun _ _ _ _ => ⟨show ∀ c ∈ "datetime".toList, isLabelChar c = true by decide, htarget,
    fun t ht => by
      rw [List.mem_singleton.1 ht]
      exact Plain.quote (w := "now".toList) (by decide) (by decide)⟩
  puts := by
    intro n g ts b hn hsame hg hts htakes hk hb r
    obtain rfl := List.mem_singleton.1 hn
    obtain rfl : ts = [] := by simpa [arity] using htakes
    have hput : "datetime('now')".toList =
        (node "datetime".toList (["'now'".toList].map atom)).write := by decide
    refine ⟨⟨b, g ++ '(' :: [')'], [], r⟩, ?_, rfl, hput⟩
    refine matchAt?_of_opening (s := []) (e := some ')') (d := []) (fun _ => rfl) hsame (by decide)
      (by decide) (by simp) hb ?_ rfl
    refine (first_blanks_append (u := []) (by simp) fun y hy => ?_).trans ?_
    · exact Option.some.inj hy ▸ by decide
    · exact first_literal [')'] r

/-- Two arguments whose call is found are texts without commas. -/
theorem noParenComma_of_arity {ts : List Text} (hts : ∀ t ∈ ts, Plain t)
    (htakes : arity 2 (ts.map some) = true) (hcount : (Text.join [',', ' '] ts).count ',' = 1) :
    ∀ t ∈ ts, ∀ c ∈ t, noParenComma.has c = true := by
  have hlength : ts.length = 2 := by simpa [arity] using htakes
  exact noParenComma_of_count hts (by rw [hcount, hlength])

/-- A rule for calls with two arguments. -/
theorem replaces_call2 {n : Text} {put : Match → Text} {outcome : List Text → Text × List Text}
    (hn : n ≠ [] ∧ ∀ c ∈ n, isLabelChar c = true)
    (hwrites : ∀ {a c : Text}, Plain a → Plain c →
      (∀ x ∈ (outcome [a, c]).1, isLabelChar x = true) ∧
      (outcome [a, c]).1.asciiLower ∈ targets ∧ ∀ t ∈ (outcome [a, c]).2, Plain t)
    (hput : ∀ {m : Match} {a c : Text}, m.group 1 = a → m.group 2 = c →
      put m = (node (outcome [a, c]).1 ((outcome [a, c]).2.map atom)).write) :
    Replaces ⟨name, call2 n noParenComma, put⟩ [n] (arity 2) noParenComma (fun _ => outcome) targets
      fun u => u.count ',' = 1 where
  tight := tight_call2 hn.1 hn.2
  finds := noParenComma_of_arity
  writes := by
    intro _ g ts _ _ hts htakes
    obtain ⟨a, c, rfl⟩ := eq_pair_of_arity htakes
    exact hwrites (hts a (by simp)) (hts c (by simp))
  puts := by
    intro _ g ts b hmem hsame hg hts htakes hk hb r
    obtain rfl := List.mem_singleton.1 hmem
    obtain ⟨a, c, rfl⟩ := eq_pair_of_arity htakes
    have hjoin : Text.join [',', ' '] [a, c] = a ++ ',' :: ' ' :: c := by simp [Text.join]
    have ha := hts a (by simp)
    have hc := hts c (by simp)
    have hspace : Text.trim (' ' :: c) = c := (Text.trim_cons_space c).trans hc.trim_eq
    rw [hjoin]
    have hmatch := matchAt?_call2 (s := []) (k := noParenComma) (a := a) (c := ' ' :: c)
      hsame hn.1 hn.2 (by simp)
      (by rw [ha.trim_eq]; exact ha.ne_nil) (by rw [ha.trim_eq]; exact hk a (by simp))
      (by rw [hspace]; exact hc.ne_nil) (by rw [hspace]; exact hk c (by simp))
      (by decide) (by decide) hb r
    exact ⟨_, hmatch, rfl, hput ha.trim_eq hspace⟩

theorem replaces_charindex (htarget : "instr".toList ∈ targets) :
    Replaces ⟨name, call2 "CHARINDEX" noParenComma,
        fun m => "instr(" ++ m.group 2 ++ ", " ++ m.group 1 ++ ")"⟩ ["CHARINDEX"] (arity 2)
      noParenComma (fun _ ts => ("instr".toList, ts.reverse)) targets fun u => u.count ',' = 1 := by
  refine replaces_call2 (by decide) (fun ha hc => ?_) fun hfirst hsecond => ?_
  · refine ⟨show ∀ c ∈ "instr".toList, isLabelChar c = true by decide, htarget, ?_⟩
    simp [ha, hc]
  · rw [hfirst, hsecond, write_node, map_write_atom]
    simp [separator, Text.join]

theorem replaces_left (htarget : "substr".toList ∈ targets) :
    Replaces ⟨name, call2 "LEFT" noParenComma,
        fun m => "substr(" ++ m.group 1 ++ ", 1, " ++ m.group 2 ++ ")"⟩ ["LEFT"] (arity 2)
      noParenComma (fun _ ts => ("substr".toList, ts.take 1 ++ "1".toList :: ts.drop 1)) targets
      fun u => u.count ',' = 1 := by
  refine replaces_call2 (by decide) (fun ha hc => ?_) fun hfirst hsecond => ?_
  · refine ⟨show ∀ c ∈ "substr".toList, isLabelChar c = true by decide, htarget, ?_⟩
    have hone : Plain "1".toList := plain_of_word (by decide) (by decide)
    simpa [ha, hc] using hone
  · rw [hfirst, hsecond, write_node, map_write_atom]
    simp [separator, Text.join]

theorem replaces_right (htarget : "substr".toList ∈ targets) :
    Replaces ⟨name, call2 "RIGHT" noParenComma,
        fun m => "substr(" ++ m.group 1 ++ ", -" ++ m.group 2 ++ ")"⟩ ["RIGHT"] (arity 2)
      noParenComma (fun _ ts => ("substr".toList, ts.take 1 ++ (ts.drop 1).map ('-' :: ·))) targets
      fun u => u.count ',' = 1 := by
  refine replaces_call2 (by decide) (fun ha hc => ?_) fun hfirst hsecond => ?_
  · refine ⟨show ∀ c ∈ "substr".toList, isLabelChar c = true by decide, htarget, ?_⟩
    simp [ha, hc.minus]
  · rw [hfirst, hsecond, write_node, map_write_atom]
    simp [separator, Text.join]

/-- A part of a date is written in ASCII letters. -/
theorem label_of_dateParts {u : Text} (h : dateParts.contains u.asciiUpper = true) :
    SameLetters u u.asciiUpper ∧ ∀ c ∈ u, isLabelChar c = true := by
  have hupper : ∀ w ∈ dateParts, ∀ c ∈ w, c.isUpper = true := by decide
  have halpha : ∀ c ∈ u, c.isAlpha = true := fun c hc => isAlpha_of_isUpper_toUpper
    (hupper _ (List.contains_iff_mem.1 h) _ (List.mem_map_of_mem hc))
  have hlabel : ∀ {c : Char}, c.isAlpha = true → isLabelChar c = true := fun hc => by
    rw [isLabelChar, hc, Bool.true_or]
  have hcapital : ∀ c ∈ u.asciiUpper, isLabelChar c = true := fun c hc =>
    hlabel (isAlpha_iff.2 (Or.inl (hupper _ (List.contains_iff_mem.1 h) c hc)))
  have hlower : u.asciiUpper.asciiLower = u.asciiLower := by
    rw [Text.asciiLower, Text.asciiUpper, List.map_map]
    exact List.map_congr_left fun c _ => toLower_toUpper c
  exact ⟨(sameLetters_iff (fun c hc => hlabel (halpha c hc)) hcapital).2 hlower.symm,
    fun c hc => hlabel (halpha c hc)⟩

/-- The pattern of a part of a date. -/
def datePartPattern : Pattern :=
  opening "DATEPART" ++ blanks ++ group 1 (oneOf (dateParts.map letters)) ++ blanks
    ++ literal "," ++ argument 2 noParen ++ literal ")"

theorem tight_datePart : Tight datePartPattern ["DATEPART".toList] fun _ => True := by
  have htight : Tight (opening "DATEPART" ++ (blanks ++ (group 1 (oneOf (dateParts.map letters)) ++
      (blanks ++ (literal [','] ++ argument 2 noParen)))) ++ literal [')']) ["DATEPART".toList]
      fun _ => True := by
    refine tight_of_opening (by decide) (by decide) fun {u} hu => ⟨fun c hc => ?_, trivial⟩
    obtain ⟨e, w, rfl, he, v, w, rfl, hv, f, w, rfl, hf, s, a, rfl, hs, ha⟩ := hu
    obtain rfl := spells_literal.1 hs
    simp only [List.mem_append, List.mem_singleton] at hc
    rcases hc with hc | hc | hc | rfl | hc
    · exact noParen_of_isBlank (he c hc)
    · obtain ⟨n, hn, hsame⟩ := of_spells_oneOf hv
      have hlabels : ∀ n ∈ dateParts, ∀ c ∈ n, isLabelChar c = true := by decide
      exact noParen_of_isWordChar (hsame.isWordChar (hlabels n hn) c hc)
    · exact noParen_of_isBlank (hf c hc)
    · decide
    · exact (of_spells_argument ha c hc).elim noParen_of_isBlank id
  refine htight.of_spells rfl fun {u} hu => ?_
  obtain ⟨v, w, rfl, hv, hw⟩ := hu
  exact ⟨v, w, rfl, spells_append_assoc.1 (spells_append_assoc.1 (spells_append_assoc.1
    (spells_append_assoc.1 hv))), hw⟩

theorem matchAt?_datePart {g u a : Text} {b : Option Char} (hsame : SameLetters g "DATEPART".toList)
    (hu : dateParts.contains u.asciiUpper = true) (ha : Plain a) (hb : b.any isWordChar = false)
    (r : Text) : datePartPattern.matchAt? b (g ++ '(' :: (u ++ ',' :: ' ' :: a ++ [')'] ++ r)) =
      some ⟨b, g ++ '(' :: (u ++ ',' :: ' ' :: a ++ [')']), [(2, a), (1, u)], r⟩ := by
  obtain ⟨hpart, hlabel⟩ := label_of_dateParts hu
  have happ : u ++ ',' :: ' ' :: a ++ [')'] ++ r = u ++ ',' :: ' ' :: (a ++ ')' :: r) := by simp
  have hcomma : ∀ y, (',' :: ' ' :: (a ++ ')' :: r)).head? = some y → y = ',' :=
    fun y hy => (Option.some.inj hy).symm
  refine matchAt?_of_opening (s := []) (e := some ')') (d := [⟨2, a ++ ')' :: r, ')' :: r⟩,
    ⟨1, u ++ ',' :: ' ' :: (a ++ ')' :: r), ',' :: ' ' :: (a ++ ')' :: r)⟩]) (fun _ => rfl) hsame
    (by decide) (by decide) (by simp) hb ?_ ?_
  · rw [happ]
    refine (first_blanks_append (u := []) (by simp) fun y hy => ?_).trans ?_
    · cases u with
      | nil => exact Option.some.inj hy ▸ by decide
      | cons x u => exact Option.some.inj hy ▸ isBlank_of_isLabelChar (hlabel x List.mem_cons_self)
    rw [first_group]
    refine first_oneOf_letters dateParts ⟨_, List.contains_iff_mem.1 hu, hpart⟩
      (fun v s hvs hs => ?_) (fun y hy => ?_) ?_
    · obtain ⟨y, s, rfl⟩ := List.exists_cons_of_ne_nil hs
      have hy := hlabel y (by rw [hvs]; simp)
      refine first_blanks_literal_of_ne (fun z hz => ?_) fun hz => ?_
      · exact Option.some.inj hz ▸ isBlank_of_isLabelChar hy
      · exact absurd (Option.some.inj hz ▸ hy) (by decide)
    · rw [hcomma y hy]
      decide
    · refine (first_blanks_append (u := []) (by simp) fun y hy => ?_).trans ?_
      · rw [hcomma y hy]
        decide
      · refine (first_literal [','] _).trans ?_
        exact first_argument (s := [' ']) (e := []) (by simp; decide) ha.ne_nil
          (fun c => ha.noParen)
          ha.head ha.last (by simp) (by decide) (by decide) rfl
  · rw [List.map_cons, List.map_singleton, text_capture, text_capture]

theorem datePart_of_groups {m : Match} {u a : Text} (hu : m.group 1 = u) (ha : m.group 2 = a) :
    datePart m = (node "strftime".toList
      ([Text.quote (partFormat u.asciiUpper), a].map atom)).write := by
  unfold datePart
  rw [hu, ha, write_node, map_write_atom]
  simp [separator, Text.join, Text.quote]

theorem plain_partFormat (part : Text) : Plain (Text.quote (partFormat part)) := by
  rw [partFormat]
  repeat' split
  all_goals exact Plain.quote (by decide) (by decide)

theorem eq_of_takesPart {ts : List Text} (h : takesPart (ts.map some) = true) :
    ∃ u a, ts = [u, a] ∧ dateParts.contains u.asciiUpper = true := by
  match ts, h with
  | [u, a], h => exact ⟨u, a, rfl, h⟩

theorem replaces_datePart (htarget : "strftime".toList ∈ targets) :
    Replaces ⟨name, datePartPattern, datePart⟩ ["DATEPART"] takesPart noParen
      (fun _ ts => ("strftime".toList,
        (ts.take 1).map (fun part => Text.quote (partFormat part.asciiUpper)) ++ ts.drop 1)) targets
      fun _ => True where
  tight := tight_datePart
  finds := fun hts _ _ t ht c hc => (hts t ht).noParen hc
  writes := by
    intro n g ts _ _ hts htakes
    obtain ⟨u, a, rfl, hu⟩ := eq_of_takesPart htakes
    refine ⟨show ∀ c ∈ "strftime".toList, isLabelChar c = true by decide, htarget,
      List.forall_mem_cons.2 ⟨plain_partFormat _, fun t ht => hts t (List.mem_cons_of_mem _ ht)⟩⟩
  puts := by
    intro n g ts b hn hsame hg hts htakes hk hb r
    obtain rfl := List.mem_singleton.1 hn
    obtain ⟨u, a, rfl, hu⟩ := eq_of_takesPart htakes
    have hjoin : Text.join [',', ' '] [u, a] = u ++ ',' :: ' ' :: a := by simp [Text.join]
    rw [hjoin]
    exact ⟨_, matchAt?_datePart hsame hu (hts a (by simp)) hb r, rfl, datePart_of_groups rfl rfl⟩

/-! ## Rules that find no call -/

theorem opensWith_patindex :
    OpensWith (opening "PATINDEX" ++ run noParen ++ literal ")") ["PATINDEX".toList] :=
  ((OpensWith.opening (by decide) (by decide)).append _).append _

theorem opensWith_identity :
    OpensWith (opening "IDENTITY" ++ blanks ++ run1 .decimal ++ blanks ++ literal "," ++ blanks
      ++ run1 .decimal ++ blanks ++ literal ")") ["IDENTITY".toList] := by
  have hopens := OpensWith.opening (n := "IDENTITY".toList) (by decide) (by decide)
  exact (((((((hopens.append _).append _).append _).append _).append _).append _).append _).append _

/-- Without brackets there are no names in brackets. -/
theorem applyTo_brackets {q : Pattern} {f : Match → Text} {t : Text} (ht : '[' ∉ t) :
    (TextRule.mk name (literal "[" ++ q ++ literal "]") f).applyTo t = t := by
  refine TextRule.applyTo_eq_self_of_starts (w := "[".toList)
    (fun u hu => prefix_of_spells_literal_seq_seq hu) fun h => ht (h.subset (by decide))

/-- **The functions of Sybase.** Every rule for functions is a map of trees. -/
theorem sound_translation : translation.Sound := by
  intro s hs
  have hmem := hs
  simp only [translation, pipeline, List.zipWith, List.mem_cons, List.not_mem_nil, or_false] at hs
  rcases hs with rfl | rfl | rfl | rfl | rfl | rfl | rfl | rfl | rfl | rfl | rfl
  · exact sound_renameTo rfl (fun _ => rfl) (by decide) (by decide) (by decide)
  · exact (replaces_getdate (by decide)).sound_of_mem distinct hmem
  · exact (replaces_datePart (by decide)).sound_of_mem distinct hmem
  · exact sound_renameTo rfl (fun _ => rfl) (by decide) (by decide) (by decide)
  · exact sound_renameTo rfl (fun _ => rfl) (by decide) (by decide) (by decide)
  · exact (replaces_charindex (by decide)).sound_of_mem distinct hmem
  · exact (replaces_left (by decide)).sound_of_mem distinct hmem
  · exact (replaces_right (by decide)).sound_of_mem distinct hmem
  · exact sound_idle_of_opensWith opensWith_patindex (by decide)
  · exact sound_idle_of_opensWith opensWith_identity (by decide)
  · exact sound_idle fun he => applyTo_brackets fun hc => he.mark_not_mem _ hc (by decide)

end Sybase

end SqlScribe
