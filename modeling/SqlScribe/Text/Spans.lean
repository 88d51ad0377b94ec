/-!
# Spans of characters

A set of characters given as a list of closed intervals of code points.
-/

namespace SqlScribe

/-- Closed intervals of code points. -/
abbrev Spans := List (Nat × Nat)

/-- Whether one of the intervals holds the character. -/
def Spans.has (spans : Spans) (c : Char) : Bool :=
  spans.any fun s => s.1 ≤ c.toNat && c.toNat ≤ s.2

/-- A character is held exactly when it lies between the ends of some interval. -/
theorem Spans.has_iff {spans : Spans} {c : Char} :
    spans.has c = true ↔ ∃ s ∈ spans, s.1 ≤ c.toNat ∧ c.toNat ≤ s.2 := by
  simp [Spans.has, List.any_eq_true]

end SqlScribe
