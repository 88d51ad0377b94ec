import Mathlib.Data.List.Find
import SqlScribe.Proofs.Statement.Forbidden
import SqlScribe.Proofs.Text.Squeeze

/-!
# The verdict on a normal form

The gate says of a text what it says of its normal form: a keyword stands between terminators, the
text begins with `select` in front of the first of them, and segments are counted without regard to
blanks. Only sizes may differ. Main statements:

* `runsOf_normalize`: normalizing keeps what stands between terminators;
* `forbiddenIn?_normalize`, `beginsWithSelect_normalize`, `segmentCount_normalize`: the checks but
  for that of the size;
* `rejection?_normalize`: the verdict.
-/

namespace SqlScribe

namespace Text

/-- Characters that are not in the class add nothing behind a beginning of characters that are. -/
theorem takeWhile_append_of_none {f : Char → Bool} {e : Text}
    (he : ∀ c ∈ e, f c = false) (t : Text) :
    (t ++ e).takeWhile f = t.takeWhile f := by
  induction t with
  | nil =>
    cases e with
    | nil => rfl
    | cons c e =>
      rw [List.nil_append, List.takeWhile_cons_of_neg (by simp [he c]), List.takeWhile_nil]
  | cons c t ih => rw [List.cons_append, List.takeWhile_cons, List.takeWhile_cons, ih]

/-- Squeezing leaves what stands in front of the first blank. -/
theorem takeWhile_squeeze {f : Char → Bool} (hf : ∀ c, isBlank c = true → f c = false) (t : Text) :
    (squeeze t).takeWhile f = t.takeWhile f := by
  induction laidOut t with
  | nil => rfl
  | char hc ht ih => rw [squeeze_cons_of_not_blank hc, List.takeWhile_cons, List.takeWhile_cons, ih]
  | @run g t hne hg hhead ht ih =>
    obtain ⟨c, g, rfl⟩ := List.exists_cons_of_ne_nil hne
    have hc : f c = false := hf c (hg c List.mem_cons_self)
    have hspace : f ' ' = false := hf ' ' (by decide)
    rw [squeeze_run hne hg hhead, List.takeWhile_cons_of_neg (by simp [hspace]), List.cons_append,
      List.takeWhile_cons_of_neg (by simp [hc])]

/-- Characters may be left out before or after a text is cut, if it is not cut at them. -/
theorem cut_filter {p q : Char → Bool} (h : ∀ c, p c = true → q c = true) (t : Text) :
    cut p (t.filter q) = (cut p t).map (List.filter q) := by
  induction t with
  | nil => rfl
  | cons c t ih =>
    cases hc : p c with
    | true =>
      rw [List.filter_cons_of_pos (h c hc), cut_cons_of_pos hc, cut_cons_of_pos hc, ih]
      rfl
    | false =>
      obtain ⟨s, ss, hs, hcut⟩ := cut_cons_of_neg hc t
      rw [hs, List.map_cons] at ih
      rw [hcut, List.map_cons]
      cases hq : q c with
      | true =>
        obtain ⟨s', ss', hs', hcut'⟩ := cut_cons_of_neg hc (t.filter q)
        obtain ⟨rfl, rfl⟩ := List.cons.inj (ih.symm.trans hs')
        rw [List.filter_cons_of_pos hq, hcut', List.filter_cons_of_pos hq]
      | false =>
        rw [List.filter_cons_of_neg (by simp [hq]), ih, List.filter_cons_of_neg (by simp [hq])]

end Text

namespace Statement

open Text

variable {sql : Text}

/-! ## What stands between terminators -/

theorem normalize_eq (sql : Text) : normalize sql = bodyText sql ++ [';'] := rfl

/-- The normal form ends in one terminator, the text it comes from in any number of them. -/
theorem exists_collapse (sql : Text) :
    ∃ e, collapse sql = bodyText sql ++ e ∧ ∀ c ∈ e, isTerminator c = true :=
  dropEnd_append_ending isTerminator (collapse sql)

/-- Normalizing keeps what stands between terminators. -/
theorem runsOf_normalize (sql : Text) :
    runsOf isTerminator (normalize sql) = runsOf isTerminator sql := by
  obtain ⟨e, he, hall⟩ := exists_collapse sql
  calc runsOf isTerminator (normalize sql)
      = runsOf isTerminator (bodyText sql) := runsOf_append_of_all (by decide) _
    _ = runsOf isTerminator (collapse sql) := by rw [he, runsOf_append_of_all hall]
    _ = runsOf isTerminator sql := by
      rw [runsOf_eq_flatMap_words fun _ => isTerminator_of_isBlank, words_collapse,
        ← runsOf_eq_flatMap_words fun _ => isTerminator_of_isBlank]

/-! ## The checks -/

theorem forbiddenKeywords_no_terminator :
    ∀ k ∈ forbiddenKeywords, k ≠ [] ∧ ∀ c ∈ k, isTerminator c = false := by decide

/-- The same keyword is found. -/
theorem forbiddenIn?_normalize (sql : Text) : forbiddenIn? (normalize sql) = forbiddenIn? sql := by
  refine List.find?_congr fun k hk => ?_
  obtain ⟨hne, hterm⟩ := forbiddenKeywords_no_terminator k hk
  have hruns : ∀ t : Text, k <:+: t.flatMap lowerOf ↔
      ∃ s ∈ runsOf isTerminator t, k <:+: s.flatMap lowerOf :=
    infix_flatMap_iff_pieces (fun _ => lowerOf_of_isTerminator) hterm hne
  rw [Bool.eq_iff_iff, occursIn_iff, occursIn_iff, infix_folded_iff hk, infix_folded_iff hk, hruns,
    hruns, runsOf_normalize]

/-- What stands in front of the first terminator is the same. -/
theorem takeWhile_normalize (sql : Text) :
    ((trim (normalize sql)).takeWhile fun c => !isTerminator c) =
      (trim sql).takeWhile fun c => !isTerminator c := by
  obtain ⟨e, he, hall⟩ := exists_collapse sql
  have hnone : ∀ u : Text, (∀ c ∈ u, isTerminator c = true) → ∀ c ∈ u, (!isTerminator c) = false :=
    fun u hu c hc => by rw [hu c hc]; rfl
  rw [normalize_eq, (singleSpaced_body_semicolon (isBody_bodyText sql)).trim_eq_self,
    takeWhile_append_of_none (hnone _ (by decide)), ← takeWhile_append_of_none (hnone e hall), ← he,
    ← squeeze_trim, takeWhile_squeeze fun c hc => by rw [isTerminator_of_isBlank hc]; rfl]

theorem beginsWithSelect_normalize (sql : Text) :
    beginsWithSelect (normalize sql) = beginsWithSelect sql := by
  have hselect : ∀ t : Text, beginsWithSelect t = true ↔
      "select".toList <+: ((trim t).takeWhile fun c => !isTerminator c).flatMap lowerOf := by
    intro t
    rw [beginsWithSelect_iff, folded, prefix_lowercase_iff (by decide),
      prefix_flatMap_iff_takeWhile (fun _ => lowerOf_of_isTerminator) (by decide)]
  rw [Bool.eq_iff_iff, hselect, hselect, takeWhile_normalize]

/-- Segments are counted as if there were no blanks. -/
theorem segmentCount_eq (sql : Text) :
    segmentCount sql = (runsOf (· == ';') (sql.filter fun c => !isBlank c)).length := by
  have hkept : ∀ c, (c == ';') = true → (!isBlank c) = true := fun c hc => by
    rw [eq_of_beq hc]
    decide
  have hblank : ∀ s : Text, (s.filter fun c => !isBlank c).isEmpty = isAllBlank s := fun s => by
    rw [Bool.eq_iff_iff, List.isEmpty_iff, List.filter_eq_nil_iff, isAllBlank, List.all_eq_true]
    simp
  rw [segmentCount, runsOf, cut_filter hkept, List.filter_map, List.length_map]
  congr 2
  funext s
  rw [Function.comp_apply, hblank]

/-- The same segments are counted. -/
theorem segmentCount_normalize (sql : Text) : segmentCount (normalize sql) = segmentCount sql := by
  obtain ⟨e, he, hall⟩ := exists_collapse sql
  have hsemicolons : ∀ u : Text, (∀ c ∈ u, isTerminator c = true) →
      ∀ c ∈ u.filter (fun c => !isBlank c), (c == ';') = true := by
    intro u hu c hc
    obtain ⟨hmem, hblank⟩ := List.mem_filter.1 hc
    have hterm := hu c hmem
    rw [isTerminator, Bool.or_eq_true] at hterm
    exact hterm.resolve_right fun h => by simp [h] at hblank
  rw [segmentCount_eq, segmentCount_eq, ← filter_collapse sql, he, normalize_eq, List.filter_append,
    List.filter_append, runsOf_append_of_all (hsemicolons _ (by decide)),
    runsOf_append_of_all (hsemicolons e hall)]

/-! ## The verdict -/

/-- **Normalizing does not change the verdict** of the gate on texts that are not too long: a text
and its normal form are both let through, or refused for the same reason and the same keyword. -/
theorem rejection?_normalize (h : utf8Size sql ≤ maxBytes)
    (hnormal : utf8Size (normalize sql) ≤ maxBytes) :
    rejection? (normalize sql) = rejection? sql := by
  rw [rejection?, rejection?, forbiddenIn?_normalize, beginsWithSelect_normalize,
    segmentCount_normalize, if_neg (Nat.not_lt.2 h), if_neg (Nat.not_lt.2 hnormal)]

/-- Two statements with blanks and semicolons between and behind them. -/
theorem rejection?_normalize_several :
    rejection? (normalize " select\u2003a;\n; SELECT b ; ;") = some .several := by
  rw [rejection?_normalize (by decide) (by decide)]
  decide

end Statement

end SqlScribe
