import SqlScribe.Proofs.Question.Mentions
import SqlScribe.Question.Lexicon

/-!
# Keywords that stand alone

An ASCII keyword is mentioned where it stands in the question in lower case with no word around it.
The places that are looked at do not overlap, and what lies across one of them is missed: that never
matters exactly for the keywords that do not begin anew behind a separator of their own. Main
statements:

* `noRestart_iff_restartsIn`: whether a keyword begins anew is found out by going through it;
* `noRestart_iff_standsIn_exact`: the keywords that are never missed;
* `mentions_iff_standsAlone`: what it is that a question mentions, and that no keyword of the
  lexicon is missed.
-/

namespace SqlScribe

namespace Question

open Text

variable {k t u : Text}

/-- The keyword stands in the text with no ASCII letter, digit or low line in front of it, and no
ASCII letter or low line behind it. -/
def StandsAlone (k t : Text) : Prop :=
  ∃ x y, t = x ++ (k ++ y) ∧ x.getLast?.any isWordPart = false ∧ y.head?.any isLetterPart = false

theorem standsIn_iff_standsAlone (hk : k ≠ []) (hrestart : NoRestart k) :
    standsIn k none 0 t = true ↔ StandsAlone k t := by
  rw [standsIn_iff hk hrestart, StandsAlone]
  simp [separates]

/-! ## Keywords that begin anew -/

/-- Whether `u`, an ending of the keyword, has a separator in it behind which the keyword begins
anew. -/
def restartsIn (k : Text) : Text → Bool
  | [] => false
  | c :: s => (!isWordPart c && !s.isEmpty && s.isPrefixOf k) || restartsIn k s

theorem restartsIn_iff : restartsIn k u = true ↔
    ∃ a c s, u = a ++ c :: s ∧ s ≠ [] ∧ isWordPart c = false ∧ s <+: k := by
  induction u with
  | nil => simp [restartsIn]
  | cons d u ih =>
    rw [restartsIn, Bool.or_eq_true, ih]
    constructor
    · rintro (h | ⟨a, c, s, rfl, hs⟩)
      · simp only [Bool.and_eq_true, Bool.not_eq_true', List.isEmpty_eq_false_iff,
          List.isPrefixOf_iff_prefix] at h
        exact ⟨[], d, u, rfl, h.1.2, h.1.1, h.2⟩
      · exact ⟨d :: a, c, s, rfl, hs⟩
    · rintro ⟨a, c, s, hsplit, hne, hword, hprefix⟩
      cases a with
      | nil =>
        obtain ⟨rfl, rfl⟩ := List.cons.inj hsplit
        refine Or.inl ?_
        simp [hword, hne, List.isPrefixOf_iff_prefix.2 hprefix]
      | cons e a =>
        obtain ⟨rfl, rfl⟩ := List.cons.inj hsplit
        exact Or.inr ⟨a, c, s, rfl, hne, hword, hprefix⟩

/-- Whether a keyword begins anew is found out by going through it. -/
theorem noRestart_iff_restartsIn : NoRestart k ↔ restartsIn k k = false := by
  rw [← Bool.not_eq_true, restartsIn_iff, NoRestart]
  constructor
  · rintro h ⟨a, c, s, hk, hne, hword, hprefix⟩
    exact h a c s hk hne hword hprefix
  · intro h a c s hk hne hword hprefix
    exact h ⟨a, c, s, hk, hne, hword, hprefix⟩

instance (k : Text) : Decidable (NoRestart k) := decidable_of_iff _ noRestart_iff_restartsIn.symm

/-! ## Keywords that are never missed -/

/-- A text that begins with itself one place further on has one character all over. -/
theorem eq_of_prefix_cons {d : Char} (h : k <+: d :: k) : ∀ c ∈ k, c = d := by
  induction k with
  | nil => exact fun c hc => absurd hc List.not_mem_nil
  | cons e k ih =>
    obtain ⟨rfl, hrest⟩ := List.cons_prefix_cons.1 h
    exact List.forall_mem_cons.2 ⟨rfl, ih hrest⟩

/-- The keyword is not found in a text that is shorter. -/
theorem standsIn_eq_false_of_length_lt (hk : k ≠ []) (h : t.length < k.length) (b : Option Char) :
    standsIn k b 0 t = false := by
  refine Bool.eq_false_iff.2 fun hfound => ?_
  obtain ⟨x, y, rfl, -⟩ := exists_of_standsIn hk hfound
  rw [List.length_append, List.length_append] at h
  omega

/-- **The keywords that are never missed** are those that do not begin anew behind a separator of
their own. -/
theorem noRestart_iff_standsIn_exact (hk : k ≠ []) :
    NoRestart k ↔ ∀ t, standsIn k none 0 t = true ↔ StandsAlone k t := by
  refine ⟨fun h t => standsIn_iff_standsAlone hk h, fun hexact a c s hsplit hne hword hprefix => ?_⟩
  obtain ⟨w, hw⟩ := hprefix
  -- behind a low line the keyword does not stand alone, and it hides the place where it begins anew
  have hstands : StandsAlone k ('_' :: (k ++ w)) := by
    refine ⟨'_' :: (a ++ [c]), [], ?_, ?_, rfl⟩
    · conv_lhs => rw [hsplit]
      rw [List.append_nil, ← hw]
      simp
    · rw [← List.cons_append, List.getLast?_concat]
      exact hword
  have hlate : ¬ k <+: '_' :: (k ++ w) := by
    intro h
    have hself : k <+: '_' :: k := by
      refine List.prefix_of_prefix_length_le h ⟨w, rfl⟩ ?_
      exact Nat.le_succ k.length
    have hc : c = '_' := eq_of_prefix_cons hself c (by rw [hsplit]; simp)
    rw [hc] at hword
    exact absurd hword (by decide)
  have hshort : w.length < k.length := by
    have hlength := congrArg List.length hw
    rw [List.length_append] at hlength
    have hpos := List.length_pos_iff.2 hne
    omega
  have hmissed : standsIn k none 0 ('_' :: (k ++ w)) = false := by
    have hline : separates (some '_') w.head? = false := rfl
    rw [standsIn_cons hlate, standsIn_append hk, hline, standsIn_eq_false_of_length_lt hk hshort]
    rfl
  exact Bool.false_ne_true (hmissed.symm.trans ((hexact _).2 hstands))

/-! ## What a question mentions -/

/-- The keywords of all tables of the lexicon. -/
def lexiconKeywords : List Text :=
  intentRules.flatMap IntentRule.keywords ++ tableRules.flatMap (fun r => r.anyOf ++ r.noneOf) ++
    columnRules.flatMap ColumnRule.keywords ++ departmentRules.flatMap DepartmentRule.keywords ++
    comparisonRules.flatMap ComparisonRule.keywords ++ orderRules.flatMap OrderRule.keywords ++
    superlativeKeywords ++ groupingKeywords ++ hireKeywords

theorem lexiconKeywords_noRestart : ∀ k ∈ lexiconKeywords, k ≠ [] ∧ NoRestart k := by
  decide +kernel

/-- **What a question mentions.** An ASCII keyword that does not begin anew behind a separator of
its own is mentioned exactly if it stands alone somewhere in the question in lower case. No keyword
of the lexicon begins anew. -/
theorem mentions_iff_standsAlone :
    (∀ k : Text, k ≠ [] → k.isAscii = true → NoRestart k → ∀ t : Text,
      ((ofText t).mentions k = true ↔ StandsAlone k t.trim.lowercase)) ∧
    ∀ k ∈ lexiconKeywords, k ≠ [] ∧ NoRestart k := by
  refine ⟨fun k hk hascii hrestart t => ?_, lexiconKeywords_noRestart⟩
  rw [mentions, if_pos hascii]
  exact (noRestart_iff_standsIn_exact hk).1 hrestart _

/-- Of two places only the second has no word around it, and a number behind it. -/
theorem mentions_iff_standsAlone_groupBy :
    ("group by".toList ∈ lexiconKeywords ∧ isAscii "group by" = true ∧ NoRestart "group by") ∧
      (ofText " Regroup by GROUP BY2 ").mentions "group by" = true ∧
      ¬ StandsAlone "group by" (trim " Regroup by team ").lowercase := by
  have hmem : "group by".toList ∈ lexiconKeywords := by decide +kernel
  obtain ⟨hne, hrestart⟩ := mentions_iff_standsAlone.2 _ hmem
  have hmentions := mentions_iff_standsAlone.1 _ hne (by decide) hrestart
  refine ⟨⟨hmem, by decide, hrestart⟩, ?_, ?_⟩
  · exact (hmentions " Regroup by GROUP BY2 ").2
      ⟨"regroup by ", "2", by decide +kernel, by decide, by decide⟩
  · rw [← hmentions " Regroup by team "]
    decide +kernel

end Question

end SqlScribe
