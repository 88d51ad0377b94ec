import Mathlib.Data.List.Basic
import SqlScribe.Dialect.Pipeline

/-!
# What a rule finds to change

A rule is applied to every body of an outline, also behind one that it changes, and says that it
changed something exactly where one of the bodies is another. Main statements:

* `TextRule.changeClauses_eq`: what becomes of the clauses, and what is said of it;
* `TextRule.changeOutline?_eq_none_iff`, `TextRule.getD_changeOutline?`: the same of outlines.
-/

namespace SqlScribe

namespace TextRule

variable {r : TextRule} {t : Text} {o o' : Outline}

/-! ## Texts -/

theorem change?_eq_none_iff : r.change? t = none ↔ r.applyTo t = t := by
  simp [change?]

theorem getD_change? (r : TextRule) (t : Text) : (r.change? t).getD t = r.applyTo t := by
  rw [change?]
  by_cases h : r.applyTo t = t
  · simp [h]
  · simp [h]

/-! ## Outlines -/

/-- Every body is rewritten, and one change is enough. -/
theorem changeClauses_eq (r : TextRule) (cs : List Clause) : r.changeClauses cs =
    (cs.map fun c => { c with body := r.applyTo c.body },
      cs.any fun c => (r.change? c.body).isSome) := by
  induction cs with
  | nil => rfl
  | cons c cs ih =>
    rw [changeClauses, ih, List.map_cons, List.any_cons, ← r.getD_change? c.body]
    cases r.change? c.body with
    | none => rfl
    | some body => rfl

theorem changeOutline?_eq (r : TextRule) (o : Outline) :
    r.changeOutline? o =
      if o.clauses.any fun c => (r.change? c.body).isSome then some (r.applyToOutline o)
      else none := by
  rw [changeOutline?, changeClauses_eq]
  rfl

theorem changeOutline?_eq_none_iff :
    r.changeOutline? o = none ↔ ∀ c ∈ o.clauses, r.applyTo c.body = c.body := by
  simp [changeOutline?_eq, change?_eq_none_iff]

/-- A rule leaves an outline as it is where it leaves every body as it is. -/
theorem applyToOutline_eq_self_iff :
    r.applyToOutline o = o ↔ ∀ c ∈ o.clauses, r.applyTo c.body = c.body := by
  obtain ⟨clauses, terminated⟩ := o
  simp only [applyToOutline, Outline.mk.injEq, and_true]
  conv_lhs => rhs; rw [← List.map_id clauses]
  rw [List.map_inj_left]
  refine forall₂_congr fun c _ => ?_
  obtain ⟨kind, body⟩ := c
  simp

theorem eq_of_changeOutline? (h : r.changeOutline? o = some o') : o' = r.applyToOutline o := by
  rw [changeOutline?_eq] at h
  split at h
  · exact (Option.some.inj h).symm
  · exact absurd h (by simp)

theorem getD_changeOutline? (r : TextRule) (o : Outline) :
    (r.changeOutline? o).getD o = r.applyToOutline o := by
  cases h : r.changeOutline? o with
  | none => exact (applyToOutline_eq_self_iff.2 (changeOutline?_eq_none_iff.1 h)).symm
  | some o' => exact eq_of_changeOutline? h

/-- Something is found to change exactly where the outline as a whole becomes another. -/
theorem changeOutline?_eq_ite (r : TextRule) (o : Outline) : r.changeOutline? o =
    if r.applyToOutline o = o then none else some (r.applyToOutline o) := by
  split
  · next h => exact changeOutline?_eq_none_iff.2 (applyToOutline_eq_self_iff.1 h)
  · next h =>
    cases hchange : r.changeOutline? o with
    | none => exact absurd (applyToOutline_eq_self_iff.2 (changeOutline?_eq_none_iff.1 hchange)) h
    | some o' => rw [eq_of_changeOutline? hchange]

end TextRule

end SqlScribe
