import SqlScribe.Proofs.Text.Layout
import SqlScribe.Text.Case

/-!
# Lower case

The lower case of a text, piece by piece. Main statement: `lowercase_infix`, what stands
in a text stands in its lower case, in lower case.
-/

namespace SqlScribe

theorem lowerOf_of_ascii {c : Char} (h : c.toNat < 0x80) : lowerOf c = [c.toLower] := by
  rw [lowerOf, if_pos h]

/-- Only ASCII characters have a lower case in ASCII by the core library's map. -/
theorem toNat_lt_of_toLower {c d : Char} (h : c.toLower = d) (hd : d.toNat < 0x80) :
    c.toNat < 0x80 := by
  subst h
  unfold Char.toLower at hd
  split at hd
  · next hu =>
    have hle := UInt32.le_iff_toNat_le.1 hu.2
    have hz : ('Z'.val).toNat = 90 := rfl
    show c.val.toNat < 0x80
    omega
  · exact hd

theorem lowerOf_ne_nil (c : Char) : lowerOf c ≠ [] := by
  unfold lowerOf
  split
  · exact List.cons_ne_nil _ _
  · split
    · exact List.cons_ne_nil _ _
    · split <;> exact List.cons_ne_nil _ _

namespace Text

theorem lowerAfter_append (before a t : Text) :
    ∃ x, lowerAfter before (a ++ t) = x ++ lowerAfter (a.reverse ++ before) t := by
  induction a generalizing before with
  | nil => exact ⟨[], rfl⟩
  | cons c a ih =>
    obtain ⟨x, hx⟩ := ih (c :: before)
    rw [List.cons_append, lowerAfter, hx, ← List.append_assoc, List.reverse_cons,
      List.append_assoc a.reverse, List.singleton_append]
    exact ⟨_, rfl⟩

/-- Without a capital sigma every character has a lower case of its own. -/
theorem lowerAfter_append_of_no_sigma {before k : Text} (t : Text) (hk : 'Σ' ∉ k) :
    lowerAfter before (k ++ t) = k.flatMap lowerOf ++ lowerAfter (k.reverse ++ before) t := by
  induction k generalizing before with
  | nil => rfl
  | cons c k ih =>
    simp only [List.mem_cons, not_or] at hk
    rw [List.cons_append, lowerAfter, ih hk.2, if_neg (by simpa using Ne.symm hk.1),
      List.flatMap_cons, List.append_assoc, List.reverse_cons, List.append_assoc,
      List.singleton_append]

/-- What stands in a text stands in its lower case, in lower case. -/
theorem lowercase_infix {k t : Text} (h : k <:+: t) (hk : 'Σ' ∉ k) :
    k.flatMap lowerOf <:+: lowercase t := by
  obtain ⟨a, b, rfl⟩ := h
  obtain ⟨x, hx⟩ := lowerAfter_append [] a (k ++ b)
  rw [List.append_assoc, lowercase, hx, lowerAfter_append_of_no_sigma b hk]
  exact ⟨x, _, by rw [List.append_assoc]⟩

theorem lowercase_eq_asciiLower {t : Text}
    (h : ∀ c ∈ t, c ≠ 'Σ' ∧ lowerOf c = [c.toLower]) : lowercase t = asciiLower t := by
  have hs : 'Σ' ∉ t := fun hm => (h _ hm).1 rfl
  have happ : lowerAfter [] (t ++ []) = t.flatMap lowerOf ++ lowerAfter (t.reverse ++ []) [] :=
    lowerAfter_append_of_no_sigma [] hs
  rw [List.append_nil, lowerAfter, List.append_nil] at happ
  rw [lowercase, happ, asciiLower]
  clear happ hs
  induction t with
  | nil => rfl
  | cons c t ih =>
    rw [List.flatMap_cons, (h c List.mem_cons_self).2, List.map_cons,
      ih fun d hd => h d (List.mem_cons_of_mem _ hd), List.singleton_append]

end Text

end SqlScribe
