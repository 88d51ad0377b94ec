import SqlScribe.Proofs.Text.Layout

/-!
# The size of texts

How many bytes a text takes that was put together or collapsed. Main statements:
`utf8Size_append` and `utf8Size_collapse_le`.
-/

namespace SqlScribe

namespace Text

theorem utf8Size_append (a b : Text) : utf8Size (a ++ b) = utf8Size a + utf8Size b := by
  induction a with
  | nil => simp [utf8Size]
  | cons c a ih =>
    rw [List.cons_append, utf8Size, utf8Size, ih]
    omega

theorem utf8Size_of_isAscii {t : Text} (h : t.isAscii = true) : utf8Size t = t.length := by
  induction t with
  | nil => rfl
  | cons c t ih =>
    rw [isAscii, List.all_cons, Bool.and_eq_true, decide_eq_true_eq] at h
    have hle : c.val ≤ 127 := UInt32.le_iff_toNat_le.2 (Nat.le_of_lt_succ h.1)
    rw [utf8Size, Char.utf8Size_eq_one_iff.2 hle, ih h.2, List.length_cons]
    omega

theorem utf8Size_le_length_mul (t : Text) : utf8Size t ≤ 4 * t.length := by
  induction t with
  | nil => exact Nat.le_refl 0
  | cons c t ih =>
    have hchar := c.utf8Size_le_four
    rw [utf8Size, List.length_cons]
    omega

/-- The size of texts with a separator of some size behind each. -/
def totalSize (sep : Nat) : List Text → Nat
  | [] => 0
  | t :: ts => utf8Size t + sep + totalSize sep ts

theorem utf8Size_join_le (sep : Text) (ts : List Text) :
    utf8Size (join sep ts) ≤ totalSize (utf8Size sep) ts := by
  induction ts with
  | nil => exact Nat.zero_le _
  | cons t ts ih =>
    rw [totalSize]
    by_cases hts : ts = []
    · subst hts
      rw [join]
      omega
    · rw [join_cons _ _ hts, utf8Size_append, utf8Size_append]
      omega

theorem totalSize_le_mul {n sep : Nat} {ts : List Text} (h : ∀ t ∈ ts, utf8Size t ≤ n) :
    totalSize sep ts ≤ ts.length * (n + sep) := by
  induction ts with
  | nil => exact Nat.zero_le _
  | cons t ts ih =>
    have ht := h t List.mem_cons_self
    have hts := ih fun u hu => h u (List.mem_cons_of_mem t hu)
    rw [totalSize, List.length_cons, Nat.succ_mul]
    omega

/-- Every character that a text is cut at takes a byte at least. -/
theorem totalSize_cut_le (p : Char → Bool) (t : Text) :
    totalSize 1 (cut p t) ≤ utf8Size t + 1 := by
  induction t with
  | nil => exact Nat.le_refl 1
  | cons c t ih =>
    have hpos := c.utf8Size_pos
    by_cases hc : p c = true
    · rw [cut_cons_of_pos hc, utf8Size]
      have hnil : totalSize 1 ([] :: cut p t) = 1 + totalSize 1 (cut p t) := by
        simp [totalSize, utf8Size]
      omega
    · obtain ⟨s, ss, hs, hcut⟩ := cut_cons_of_neg (p := p) (c := c) (by simpa using hc) t
      have hcons : totalSize 1 ((c :: s) :: ss) = c.utf8Size + totalSize 1 (s :: ss) := by
        simp [totalSize, utf8Size, Nat.add_assoc]
      rw [hcut, hcons, ← hs, utf8Size]
      omega

theorem totalSize_filter_le (sep : Nat) (f : Text → Bool) (ts : List Text) :
    totalSize sep (ts.filter f) ≤ totalSize sep ts := by
  induction ts with
  | nil => exact Nat.le_refl 0
  | cons t ts ih =>
    rw [totalSize]
    by_cases ht : f t = true
    · rw [List.filter_cons_of_pos ht, totalSize]
      omega
    · rw [List.filter_cons_of_neg ht]
      omega

/-- Collapsing a text makes it no longer than one byte more, whatever its blanks take. -/
theorem utf8Size_collapse_le (t : Text) : utf8Size (collapse t) ≤ utf8Size t + 1 := by
  calc utf8Size (collapse t) ≤ totalSize 1 (words t) := utf8Size_join_le [' '] (words t)
    _ ≤ totalSize 1 (cut isBlank t) := totalSize_filter_le 1 _ _
    _ ≤ utf8Size t + 1 := totalSize_cut_le isBlank t

end Text

end SqlScribe
