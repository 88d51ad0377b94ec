import SqlScribe.Proofs.Statement.NormalForm
import SqlScribe.Proofs.Text.Folding
import SqlScribe.Statement.Gate

/-!
# What the gate lets through

The gate reads a trimmed text in lower case. Main statements:

* `accepted_iff`: the four conditions of the gate;
* `beginsWithSelect_iff`: what the second one comes to;
* `not_infix_of_accepted`: no forbidden keyword stands in an accepted text;
* `semicolon_not_mem_of_accepted`: an accepted normal form has one semicolon;
* `semicolons_of_accepted`: other accepted texts have theirs at the end, among blanks.
-/

namespace SqlScribe

namespace Statement

theorem forbiddenIn?_eq_none_iff {sql : Text} :
    forbiddenIn? sql = none ↔ ∀ k ∈ forbiddenKeywords, ¬ k <:+: folded sql := by
  rw [forbiddenIn?, List.find?_eq_none]
  simp only [Text.occursIn_iff]

/-- The gate lets a text through when no forbidden keyword is in it, it begins with
`select`, it is not too long and has one segment at most. -/
theorem accepted_iff {sql : Text} :
    Accepted sql ↔ (∀ k ∈ forbiddenKeywords, ¬ k <:+: folded sql) ∧ beginsWithSelect sql = true ∧
      Text.utf8Size sql ≤ maxBytes ∧ segmentCount sql ≤ 1 := by
  rw [← forbiddenIn?_eq_none_iff, Accepted, rejection?]
  cases forbiddenIn? sql with
  | some k => simp
  | none =>
    cases beginsWithSelect sql with
    | false => simp
    | true =>
      by_cases hlong : maxBytes < Text.utf8Size sql
      · simp [hlong, Nat.not_le.2 hlong]
      · simp [hlong, Nat.not_lt.1 hlong]

/-- A forbidden keyword is a text in lower case without blanks. -/
theorem forbiddenKeywords_plain : ∀ k ∈ forbiddenKeywords,
    k ≠ [] ∧ ∀ c ∈ k, isBlank c = false ∧ c ≠ 'Σ' ∧ lowerOf c = [c] := by
  have h : (forbiddenKeywords.all fun k => k != [] &&
      k.all fun c => !isBlank c && (c != 'Σ' && lowerOf c == [c])) = true := by decide
  intro k hk
  have hk := List.all_eq_true.1 h k hk
  simp only [Bool.and_eq_true, bne_iff_ne, List.all_eq_true, Bool.not_eq_true', beq_iff_eq] at hk
  exact hk

/-- No forbidden keyword stands in an accepted text. -/
theorem not_infix_of_accepted {sql k : Text} (h : Accepted sql) (hk : k ∈ forbiddenKeywords) :
    ¬ k <:+: sql := by
  intro hin
  obtain ⟨hne, hplain⟩ := forbiddenKeywords_plain k hk
  have htrim := Text.infix_trim hne (fun c hc => (hplain c hc).1) hin
  have hlower := Text.lowercase_infix htrim fun hs => (hplain _ hs).2.1 rfl
  have hself : k.flatMap lowerOf = k := by
    rw [List.flatMap_congr fun c hc => (hplain c hc).2.2, List.flatMap_singleton']
  rw [hself] at hlower
  exact (accepted_iff.1 h).1 k hk hlower

/-- The text begins with `select` when that is what the gate reads first: taking the `;` and the
blanks from its end does not matter. -/
theorem beginsWithSelect_iff {sql : Text} :
    beginsWithSelect sql = true ↔ "select".toList <+: folded sql := by
  have hsemicolon : ∀ t : Text, Text.endsWith t [';'] = true → t = t.dropLast ++ [';'] := by
    intro t ht
    rw [Text.endsWith, List.isPrefixOf_iff_prefix, List.reverse_prefix] at ht
    obtain ⟨u, rfl⟩ := ht
    rw [List.dropLast_concat]
  rw [beginsWithSelect, Text.startsWith, List.isPrefixOf_iff_prefix]
  constructor
  · intro h
    obtain ⟨e, he, -⟩ := Text.dropEnd_append_ending isBlank
      (if Text.endsWith (folded sql) [';'] then (folded sql).dropLast else folded sql)
    refine (h.trans ⟨e, he.symm⟩).trans ?_
    split
    · exact List.dropLast_prefix _
    · exact List.prefix_refl _
  · intro h
    have hlast : ∀ c, "select".toList.getLast? = some c → isBlank c = false := by
      rintro c ⟨rfl⟩
      decide
    refine Text.prefix_dropEnd ?_ hlast
    split
    · next hends =>
      rw [hsemicolon _ hends] at h
      exact (Text.prefix_append_cons_iff (by decide)).1 h
    · exact h

/-- An accepted text begins with a character whose lower case is `s`. -/
theorem head_of_accepted {sql : Text} (h : Accepted sql) :
    ∃ c r x, Text.trim sql = c :: r ∧ c ≠ 'Σ' ∧ lowerOf c = 's' :: x := by
  have hprefix : "select".toList <+: folded sql := beginsWithSelect_iff.1 (accepted_iff.1 h).2.1
  cases htrim : Text.trim sql with
  | nil =>
    rw [folded, htrim] at hprefix
    exact absurd (List.prefix_nil.1 hprefix) (by decide)
  | cons c r =>
    obtain ⟨y, hy⟩ := hprefix
    rw [folded, htrim, Text.lowercase, Text.lowerAfter] at hy
    by_cases hs : c = 'Σ'
    · subst hs
      rw [if_pos (by decide)] at hy
      split at hy <;> exact absurd (List.cons.inj hy).1 (by decide)
    · rw [if_neg (by simpa using hs)] at hy
      obtain ⟨d, x, hx⟩ := List.exists_cons_of_ne_nil (lowerOf_ne_nil c)
      rw [hx] at hy
      obtain ⟨rfl, -⟩ := List.cons.inj hy
      exact ⟨c, r, x, rfl, hs, hx⟩

/-- A terminator has no other lower case. -/
theorem lowerOf_of_isTerminator {c : Char} (h : isTerminator c = true) : lowerOf c = [c] := by
  rw [isTerminator, Bool.or_eq_true, beq_iff_eq] at h
  rcases h with rfl | h
  · decide
  · exact lowerOf_of_isBlank h

/-- No terminator is the first character of an accepted text, but for blanks. -/
theorem exists_first_of_accepted {sql : Text} (h : Accepted sql) :
    ∃ c r, Text.trim sql = c :: r ∧ isTerminator c = false := by
  obtain ⟨c, r, x, htrim, -, hlower⟩ := head_of_accepted h
  refine ⟨c, r, htrim, ?_⟩
  by_contra hterm
  rw [lowerOf_of_isTerminator (by simpa using hterm)] at hlower
  obtain rfl := (List.cons.inj hlower).1
  exact hterm (by decide)

/-- In a normal form that the gate lets through the last character is the only
semicolon. -/
theorem semicolon_not_mem_of_accepted {b : Text} (hb : IsBody b) (h : Accepted (b ++ [';'])) :
    ';' ∉ b := by
  obtain ⟨c, r, htrim, hc⟩ := exists_first_of_accepted h
  rw [(singleSpaced_body_semicolon hb).trim_eq_self] at htrim
  have hhead : (b ++ [';']).head? = some c := by rw [htrim, List.head?_cons]
  exact semicolon_not_mem_of_segmentCount hb hhead hc (accepted_iff.1 h).2.2.2

/-- A statement that the gate let through has no semicolon, or nothing but terminators behind the
first one. -/
theorem semicolons_of_accepted {sql : Text} (h : Accepted sql) : ';' ∉ sql ∨
    ∃ x y, sql = x ++ ';' :: y ∧ ';' ∉ x ∧ ∀ c ∈ ';' :: y, isTerminator c = true := by
  by_cases hmem : ';' ∈ sql
  · obtain ⟨c, r, htrim, hc⟩ := exists_first_of_accepted h
    obtain ⟨u, e, hsql, hu, -⟩ := Text.exists_trim sql
    obtain ⟨x, y, hsplit, hx⟩ := List.eq_append_cons_of_mem hmem
    have hsemicolon : ';' ∉ u ++ [c] := by
      intro hin
      rcases List.mem_append.1 hin with hin | hin
      · exact absurd (hu _ hin) (by decide)
      · rw [← List.mem_singleton.1 hin] at hc
        exact absurd hc (by decide)
    have hfront : c ∈ x := by
      have hsame : (u ++ [c]) ++ (r ++ e) = x ++ ';' :: y := by
        rw [← hsplit, hsql, htrim, List.append_assoc]
        rfl
      rcases List.append_eq_append_iff.1 hsame with ⟨l, rfl, -⟩ | ⟨l, hl, hr⟩
      · simp
      · cases l with
        | nil => exact List.append_nil x ▸ hl ▸ by simp
        | cons d l =>
          obtain ⟨rfl, -⟩ := List.cons.inj hr
          exact absurd (hl ▸ List.mem_append_right x List.mem_cons_self) hsemicolon
    have hcount := (accepted_iff.1 h).2.2.2
    rw [hsplit, segmentCount_append] at hcount
    have hfirst := segmentCount_pos_of_mem hfront hc
    refine Or.inr ⟨x, y, hsplit, hx, List.forall_mem_cons.2 ⟨by decide, fun d hd => ?_⟩⟩
    by_contra hd'
    have hrest := segmentCount_pos_of_mem hd (by simpa using hd')
    omega
  · exact Or.inl hmem

end Statement

end SqlScribe
