import SqlScribe.Proofs.Statement.Gate
import SqlScribe.Proofs.Text.Folding
import SqlScribe.Proofs.Text.Words

/-!
# Forbidden keywords in any surroundings

A forbidden keyword is found wherever it stands and in whatever case it is written: it has no blank
and no sigma, so neither the trimming of the text nor the letters around it hide it. Main
statements:

* `infix_folded_iff`: where the gate finds a keyword;
* `exists_forbidden`: a text with a keyword is refused for it or for an earlier one;
* `forbidden_in_context`: so is every text around it.
-/

namespace SqlScribe

namespace Statement

theorem forbiddenKeywords_sigmaFree : ∀ k ∈ forbiddenKeywords, SigmaFree k := by decide

theorem forbiddenKeywords_ascii : ∀ k ∈ forbiddenKeywords, ∀ c ∈ k, c.toNat < 0x80 := by decide

/-- The gate finds a keyword when it stands in the lower case of the characters. -/
theorem infix_folded_iff {k : Text} (hk : k ∈ forbiddenKeywords) (sql : Text) :
    k <:+: folded sql ↔ k <:+: sql.flatMap lowerOf := by
  obtain ⟨hne, hplain⟩ := forbiddenKeywords_plain k hk
  have hwords : ∀ t : Text, k <:+: t.flatMap lowerOf ↔
      ∃ w ∈ Text.words t, k <:+: w.flatMap lowerOf :=
    Text.infix_flatMap_iff_pieces (fun _ => lowerOf_of_isBlank) (fun c hc => (hplain c hc).1) hne
  rw [folded, Text.infix_lowercase_iff (forbiddenKeywords_sigmaFree k hk), hwords, hwords,
    Text.words_trim]

/-! ## The keyword that is reported -/

/-- The keyword `k₀` is looked for no later than `k`. -/
def NotBehind (k₀ k : Text) : Prop :=
  k₀ ∈ forbiddenKeywords ∧ forbiddenKeywords.idxOf k₀ ≤ forbiddenKeywords.idxOf k

/-- What is found first stands in front of everything that could have been found. -/
theorem idxOf_le_of_find? {ks : List Text} {q : Text → Bool} {x y : Text} (h : ks.find? q = some x)
    (hy : y ∈ ks) (hq : q y = true) : ks.idxOf x ≤ ks.idxOf y := by
  induction ks with
  | nil => exact absurd hy List.not_mem_nil
  | cons k ks ih =>
    rw [List.find?_cons] at h
    cases hk : q k with
    | true =>
      rw [hk] at h
      obtain rfl := Option.some.inj h
      rw [List.idxOf_cons_self]
      exact Nat.zero_le _
    | false =>
      rw [hk] at h
      have hne : ∀ {z : Text}, q z = true → k ≠ z := by
        rintro z hz rfl
        rw [hk] at hz
        exact Bool.noConfusion hz
      rw [List.idxOf_cons_ne _ (hne (List.find?_some h)), List.idxOf_cons_ne _ (hne hq)]
      exact Nat.succ_le_succ (ih h ((List.mem_cons.1 hy).resolve_left (hne hq).symm))

/-- A text with a keyword in it is refused for that keyword or for an earlier one, whatever else
would be wrong with it. -/
theorem exists_forbidden {k sql : Text} (hk : k ∈ forbiddenKeywords)
    (h : k <:+: sql.flatMap lowerOf) :
    ∃ k₀, rejection? sql = some (.forbidden k₀) ∧ NotBehind k₀ k := by
  rw [← infix_folded_iff hk] at h
  cases hfound : forbiddenIn? sql with
  | none => exact absurd h (forbiddenIn?_eq_none_iff.1 hfound k hk)
  | some k₀ =>
    refine ⟨k₀, by rw [rejection?, hfound], List.mem_of_find?_eq_some hfound, ?_⟩
    exact idxOf_le_of_find? hfound hk (Text.occursIn_iff.2 h)

/-- A keyword that a text is refused for stands in the lower case of its characters. -/
theorem infix_of_forbidden {k sql : Text} (h : rejection? sql = some (.forbidden k)) :
    k ∈ forbiddenKeywords ∧ k <:+: sql.flatMap lowerOf := by
  rw [rejection?] at h
  split at h
  · next k' hfound =>
    obtain rfl : k' = k := by simpa using h
    have hk := List.mem_of_find?_eq_some hfound
    have hin : Text.occursIn k' (folded sql) = true :=
      List.find?_some (p := fun k => Text.occursIn k (folded sql)) hfound
    exact ⟨hk, (infix_folded_iff hk sql).1 (Text.occursIn_iff.1 hin)⟩
  · split at h
    · exact absurd h (by simp)
    · split at h
      · exact absurd h (by simp)
      · split at h <;> exact absurd h (by simp)

/-- Written in any case a keyword has itself for lower case. -/
theorem flatMap_lowerOf_spelling {k v : Text} (hk : k ∈ forbiddenKeywords) (hv : v.asciiLower = k) :
    v.flatMap lowerOf = k := by
  have hlower : ∀ c ∈ v, lowerOf c = [c.toLower] := fun c hc =>
    lowerOf_of_ascii (toNat_lt_of_toLower rfl
      (forbiddenKeywords_ascii k hk _ (hv ▸ List.mem_map_of_mem hc)))
  rw [List.flatMap_congr hlower, ← List.map_eq_flatMap]
  exact hv

/-- **No surroundings hide a forbidden keyword.** A text that holds a keyword in any case is refused
for that keyword or for one that is looked for earlier. So is every text that holds one that was
refused for a keyword. -/
theorem forbidden_in_context (a b : Text) :
    (∀ k ∈ forbiddenKeywords, ∀ v : Text, v.asciiLower = k →
      ∃ k₀, rejection? (a ++ v ++ b) = some (.forbidden k₀) ∧ NotBehind k₀ k) ∧
    ∀ s k, rejection? s = some (.forbidden k) →
      ∃ k₀, rejection? (a ++ s ++ b) = some (.forbidden k₀) ∧ NotBehind k₀ k := by
  have hwithin : ∀ s : Text, s.flatMap lowerOf <:+: (a ++ s ++ b).flatMap lowerOf := fun s => by
    rw [List.flatMap_append, List.flatMap_append]
    exact List.infix_append _ _ _
  constructor
  · intro k hk v hv
    refine exists_forbidden hk ?_
    rw [← flatMap_lowerOf_spelling hk hv]
    exact hwithin v
  · intro s k h
    obtain ⟨hk, hin⟩ := infix_of_forbidden h
    exact exists_forbidden hk (hin.trans (hwithin s))

/-- A keyword with a Kelvin sign behind it in a literal, and a comment behind a text that has
another keyword. -/
theorem forbidden_in_context_literal :
    (∃ k₀, rejection? ("SELECT 'rain" ++ "DrOp" ++ "\u212A'; x") = some (.forbidden k₀) ∧
      NotBehind k₀ "drop") ∧
    ∃ k₀, rejection? ("UNION " ++ "x --" ++ " y") = some (.forbidden k₀) ∧ NotBehind k₀ "--" :=
  ⟨(forbidden_in_context _ _).1 "drop" (by decide) "DrOp" (by decide),
    (forbidden_in_context _ _).2 "x --" "--" (by decide)⟩

end Statement

end SqlScribe
