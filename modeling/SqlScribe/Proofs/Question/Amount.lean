import SqlScribe.Question.Amount

/-!
# The size of amounts

No amount is negative or beyond the signed 64-bit range, whatever the text it is read from.
Main statement: `bounded_of_amountIn?`.
-/

namespace SqlScribe

/-- A number of won that fits 63 bits. -/
def IsAmount (v : Int) : Prop := 0 ≤ v ∧ v ≤ maxAmount

/-- An amount in range; the ends of an interval are in order. -/
def Amount.Bounded : Amount → Prop
  | .value v => IsAmount v
  | .range min max => IsAmount min ∧ IsAmount max ∧ min ≤ max

theorem isAmount_of_le {n : Nat} (h : n ≤ maxAmount) : IsAmount n :=
  ⟨Int.natCast_nonneg n, Int.ofNat_le.2 h⟩

theorem Amount.bounded_between {a b : Nat} (ha : a ≤ maxAmount) (hb : b ≤ maxAmount) :
    (Amount.between a b).Bounded := by
  rw [Amount.between]
  have ha' := isAmount_of_le ha
  have hb' := isAmount_of_le hb
  refine ⟨⟨?_, ?_⟩, ⟨?_, ?_⟩, ?_⟩
  · exact Int.le_min.2 ⟨ha'.1, hb'.1⟩
  · exact Int.le_trans (Int.min_le_left _ _) ha'.2
  · exact Int.le_trans ha'.1 (Int.le_max_left _ _)
  · exact Int.max_le.2 ⟨ha'.2, hb'.2⟩
  · exact Int.le_trans (Int.min_le_left _ _) (Int.le_max_left _ _)

/-! ## Numbers -/

theorem Text.toNatUpTo?_le {max : Nat} {t : Text} {n : Nat} (h : t.toNatUpTo? max = some n) :
    n ≤ max := by
  rw [Text.toNatUpTo?, Option.filter_eq_some_iff] at h
  simpa using h.2

theorem amountUpToMax?_le {m n : Nat} (h : amountUpToMax? m = some n) : n ≤ maxAmount := by
  rw [amountUpToMax?] at h
  split at h
  · next hle => exact Option.some.inj h ▸ hle
  · exact absurd h (by simp)

theorem millionsOf?_le {t : Text} {n : Nat} (h : millionsOf? t = some n) : n ≤ maxAmount := by
  rw [millionsOf?] at h
  split at h
  · exact absurd h (by simp)
  · exact amountUpToMax?_le h

/-! ## Phrases -/

/-- Whatever terms follow, the value of a sum is in range. -/
theorem AmountSum.valueWith?_le {s : AmountSum} {ts : List AmountTerm} {n : Nat}
    (h : s.valueWith? ts = some n) : n ≤ maxAmount := by
  induction ts generalizing s with
  | nil => exact amountUpToMax?_le h
  | cons t ts ih =>
    rw [valueWith?] at h
    split at h
    · exact absurd h (by simp)
    · split at h
      · exact amountUpToMax?_le h
      · split at h
        · exact absurd h (by simp)
        · exact ih h

theorem phraseValue?_le {phrase : Text} {n : Nat} (h : phraseValue? phrase = some n) :
    n ≤ maxAmount := by
  rw [phraseValue?] at h
  split at h
  · split at h
    · exact absurd h (by simp)
    · exact Text.toNatUpTo?_le h
  · split at h
    · exact absurd h (by simp)
    · exact AmountSum.valueWith?_le h

/-! ## Amounts in a text -/

theorem bareNumberIn?_le {t : Text} {n : Nat} (h : bareNumberIn? t = some n) : n ≤ maxAmount := by
  obtain ⟨m, -, hm⟩ := List.exists_of_findSome?_eq_some h
  split at hm
  · exact absurd hm (by simp)
  · split at hm
    · exact absurd hm (by simp)
    · exact absurd hm (by simp)
    · exact Text.toNatUpTo?_le hm

/-- An interval of two texts is in range if each of them is read in range. -/
theorem bounded_of_intervalOf? {read : Text → Option Nat}
    (hread : ∀ {t n}, read t = some n → n ≤ maxAmount) {ends : Text × Text} {a : Amount}
    (h : intervalOf? read ends = some a) : a.Bounded := by
  rw [intervalOf?] at h
  split at h
  · next x y hx hy =>
    exact Option.some.inj h ▸ Amount.bounded_between (hread hx) (hread hy)
  · exact absurd h (by simp)

theorem bounded_of_phraseInterval? {phrases : List Match} {a : Amount}
    (h : phraseInterval? phrases = some a) : a.Bounded := by
  obtain ⟨c, -, hc⟩ := List.exists_of_findSome?_eq_some h
  obtain ⟨ends, -, hends⟩ := Option.bind_eq_some_iff.1 hc
  exact bounded_of_intervalOf? phraseValue?_le hends

theorem bounded_of_millionsInterval? {t : Text} {a : Amount} (h : millionsInterval? t = some a) :
    a.Bounded := by
  obtain ⟨m, -, hm⟩ := Option.bind_eq_some_iff.1 h
  exact bounded_of_intervalOf? millionsOf?_le hm

/-- The amount that a text speaks of is in range. -/
theorem bounded_of_amountIn? {t : Text} {a : Amount} (h : amountIn? t = some a) : a.Bounded := by
  rw [amountIn?, ungroupedAmount?] at h
  split at h
  · next b hb =>
    obtain rfl := Option.some.inj h
    rcases Option.or_eq_some_iff.1 hb with hb | ⟨-, hb⟩
    · exact bounded_of_phraseInterval? hb
    · exact bounded_of_millionsInterval? hb
  · split at h
    · next v hv =>
      obtain rfl := Option.some.inj h
      obtain ⟨m, -, hm⟩ := List.exists_of_findSome?_eq_some hv
      exact isAmount_of_le (phraseValue?_le hm)
    · split at h
      · obtain ⟨v, hv, rfl⟩ := Option.map_eq_some_iff.1 h
        obtain ⟨n, hn, hnv⟩ := Option.bind_eq_some_iff.1 hv
        obtain rfl := Option.some.inj hnv
        exact isAmount_of_le (millionsOf?_le hn)
      · obtain ⟨v, hv, rfl⟩ := Option.map_eq_some_iff.1 h
        obtain ⟨n, hn, hnv⟩ := Option.bind_eq_some_iff.1 hv
        obtain rfl := Option.some.inj hnv
        exact isAmount_of_le (bareNumberIn?_le hn)

end SqlScribe
