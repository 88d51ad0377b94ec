import SqlScribe.Proofs.Statement.Verdict

/-!
# Texts with the same normal form

Normalizing keeps of a text the words in front of its final terminators, and nothing else. Main
statements:

* `bodyText_eq_collapse`: the terminators may be dropped before or after the layout is changed;
* `normalize_eq_normalize_iff`: when two texts have the same normal form;
* `normalize_classifies`: the normal form stands for all texts with the same words.
-/

namespace SqlScribe

namespace Text

variable {t : Text} {p : Char → Bool}

/-- Texts are collapsed alike exactly if they have the same words. -/
theorem collapse_eq_collapse_iff {a b : Text} : collapse a = collapse b ↔ words a = words b := by
  constructor
  · intro h
    rw [← words_collapse a, h, words_collapse]
  · intro h
    rw [collapse, h, collapse]

/-- A character at the end that is not blank stays there. -/
theorem collapse_concat {c : Char} (hc : isBlank c = false) (t : Text) :
    collapse (t ++ [c]) = trimStart (squeeze t) ++ [c] := by
  have hone : ∀ d, d ∈ [c].head? ∨ d ∈ [c].getLast? → isBlank d = false := by
    rintro d (hd | hd) <;> exact Option.some.inj hd ▸ hc
  have hkept := trim_append (a := squeeze t) (m := [c]) (e := []) (List.cons_ne_nil c [])
    (fun d hd => hone d (Or.inl hd)) fun d hd => hone d (Or.inr hd)
  rw [collapse_eq_trim_squeeze, squeeze_append (Or.inr fun d hd => hone d (Or.inl hd)),
    squeeze_eq_self (t := [c]) (by simpa using hc)]
  exact hkept

/-- Blanks at the end may be dropped first, if they are dropped with the others. -/
theorem dropEnd_trimEnd (hp : ∀ c, isBlank c = true → p c = true) (t : Text) :
    dropEnd p (trimEnd t) = dropEnd p t := by
  obtain ⟨e, he, hblank⟩ := dropEnd_append_ending isBlank t
  conv_rhs => rw [he]
  exact (dropEnd_append_of_all (fun c hc => hp c (hblank c hc)) _).symm

end Text

namespace Statement

open Text

/-- The terminators at the end may be dropped before or after the layout is changed. -/
theorem bodyText_eq_collapse (sql : Text) : bodyText sql = collapse (dropEnd isTerminator sql) := by
  induction sql using List.reverseRecOn with
  | nil => rfl
  | append_singleton t c ih =>
    cases hblank : isBlank c with
    | true =>
      have hwords : words (t ++ [c]) = words t := by
        rw [words_append_cons hblank]
        exact List.append_nil _
      rw [dropEnd_concat_of_pos (isTerminator_of_isBlank hblank), ← ih, bodyText, bodyText,
        collapse_eq_collapse_iff.2 hwords]
    | false =>
      rw [bodyText, collapse_concat hblank]
      cases hterm : isTerminator c with
      | true =>
        rw [dropEnd_concat_of_pos hterm, dropEnd_concat_of_pos hterm, ← ih, bodyText,
          collapse_eq_trim_squeeze, trim, dropEnd_trimEnd fun _ => isTerminator_of_isBlank]
      | false =>
        rw [dropEnd_concat_of_neg hterm, dropEnd_concat_of_neg hterm, collapse_concat hblank]

/-- Two texts have the same normal form exactly if they have the same words in front of their final
terminators. -/
theorem normalize_eq_normalize_iff {a b : Text} : normalize a = normalize b ↔
    words (dropEnd isTerminator a) = words (dropEnd isTerminator b) := by
  rw [normalize_eq, normalize_eq, List.append_cancel_right_eq, bodyText_eq_collapse,
    bodyText_eq_collapse, collapse_eq_collapse_iff]

/-- **The normal form stands for all texts with the same words.** It is its own normal form, two
texts have the same one exactly if their words are the same once the semicolons and blanks at their
ends are dropped, and it has as many segments as the text. -/
theorem normalize_classifies :
    (∀ sql, normalize (normalize sql) = normalize sql) ∧
    (∀ a b, normalize a = normalize b ↔
      words (dropEnd isTerminator a) = words (dropEnd isTerminator b)) ∧
    ∀ sql, segmentCount (normalize sql) = segmentCount sql :=
  ⟨normalize_normalize, fun _ _ => normalize_eq_normalize_iff, segmentCount_normalize⟩

/-- A semicolon between words is part of a word, those at the end are not. -/
example : normalize "\n SELECT 1 ;\t; " = normalize "SELECT\u20031" ∧
    normalize "a ;b" ≠ normalize "a; b" ∧ normalize " ; ;" = ";".toList := by decide

end Statement

end SqlScribe
