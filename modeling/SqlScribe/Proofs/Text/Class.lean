import Mathlib.Data.List.Basic
import SqlScribe.Text.Class

/-!
# Classes of characters by code point

The ASCII classes as intervals of code points, and the blanks beyond ASCII as spans. Main
statements: `isUpper_iff`, `isLower_iff`, `isDigit_iff`, and `ascii_or_has_of_isBlank`.
-/

namespace SqlScribe

/-! ## ASCII letters and digits -/

theorem isUpper_iff {c : Char} : c.isUpper = true ↔ 65 ≤ c.toNat ∧ c.toNat ≤ 90 := by
  show decide ('A'.val ≤ c.val ∧ c.val ≤ 'Z'.val) = true ↔ _
  rw [decide_eq_true_eq]
  exact and_congr UInt32.le_iff_toNat_le UInt32.le_iff_toNat_le

theorem isLower_iff {c : Char} : c.isLower = true ↔ 97 ≤ c.toNat ∧ c.toNat ≤ 122 := by
  show (decide ('a'.val ≤ c.val) && decide (c.val ≤ 'z'.val)) = true ↔ _
  rw [Bool.and_eq_true, decide_eq_true_eq, decide_eq_true_eq]
  exact and_congr UInt32.le_iff_toNat_le UInt32.le_iff_toNat_le

theorem isDigit_iff {c : Char} : c.isDigit = true ↔ 48 ≤ c.toNat ∧ c.toNat ≤ 57 := by
  show (decide ('0'.val ≤ c.val) && decide (c.val ≤ '9'.val)) = true ↔ _
  rw [Bool.and_eq_true, decide_eq_true_eq, decide_eq_true_eq]
  exact and_congr UInt32.le_iff_toNat_le UInt32.le_iff_toNat_le

theorem isAlpha_iff {c : Char} : c.isAlpha = true ↔ c.isUpper = true ∨ c.isLower = true := by
  show (c.isUpper || c.isLower) = true ↔ _
  rw [Bool.or_eq_true]

theorem isAlpha_eq_false {c : Char} (h : 0x80 ≤ c.toNat) : c.isAlpha = false := by
  refine Bool.eq_false_iff.2 fun hc => ?_
  rcases isAlpha_iff.1 hc with hc | hc
  · have hle := (isUpper_iff.1 hc).2
    omega
  · have hle := (isLower_iff.1 hc).2
    omega

theorem isDigit_eq_false {c : Char} (h : 0x80 ≤ c.toNat) : c.isDigit = false := by
  refine Bool.eq_false_iff.2 fun hc => ?_
  have hle := (isDigit_iff.1 hc).2
  omega

theorem isAlpha_of_isDecimal {c : Char} (h : isDecimal c = true) : c.isAlpha = false := by
  refine Bool.eq_false_iff.2 fun hc => ?_
  have hcode : c.toNat < 0x80 ∧ ¬ c.toNat ≤ 57 := by
    rcases isAlpha_iff.1 hc with hc | hc
    · have hcode := isUpper_iff.1 hc
      omega
    · have hcode := isLower_iff.1 hc
      omega
  simp only [isDecimal, Bool.or_eq_true, Bool.and_eq_true, decide_eq_true_eq] at h
  rcases h with h | h
  · exact hcode.2 (isDigit_iff.1 h).2
  · omega

theorem toUpper_of_not_isLower {c : Char} (h : c.isLower = false) : c.toUpper = c := by
  unfold Char.toUpper
  refine dif_neg fun hl => ?_
  have hlower : c.isLower = true :=
    isLower_iff.2 ⟨UInt32.le_iff_toNat_le.1 hl.1, UInt32.le_iff_toNat_le.1 hl.2⟩
  exact absurd hlower (by simp [h])

theorem toLower_of_not_isUpper {c : Char} (h : c.isUpper = false) : c.toLower = c := by
  unfold Char.toLower
  refine dif_neg fun hu => ?_
  have hupper : c.isUpper = true :=
    isUpper_iff.2 ⟨UInt32.le_iff_toNat_le.1 hu.1, UInt32.le_iff_toNat_le.1 hu.2⟩
  exact absurd hupper (by simp [h])

/-- What is a capital letter in upper case is a letter. -/
theorem isAlpha_of_isUpper_toUpper {c : Char} (h : c.toUpper.isUpper = true) :
    c.isAlpha = true := by
  by_cases hlower : c.isLower = true
  · exact isAlpha_iff.2 (Or.inr hlower)
  · rw [toUpper_of_not_isLower (by simpa using hlower)] at h
    exact isAlpha_iff.2 (Or.inl h)

/-- A property of the small letters, checked one by one. -/
theorem of_isLower {P : Char → Prop} (h : ∀ n ∈ List.range' 97 26, P (Char.ofNat n)) {c : Char}
    (hc : c.isLower = true) : P c := by
  obtain ⟨hge, hle⟩ := isLower_iff.1 hc
  have hletter := h c.toNat (List.mem_range'_1.2 ⟨hge, by omega⟩)
  rwa [Char.ofNat_toNat] at hletter

/-- A property of the capitals, checked one by one. -/
theorem of_isUpper {P : Char → Prop} (h : ∀ n ∈ List.range' 65 26, P (Char.ofNat n)) {c : Char}
    (hc : c.isUpper = true) : P c := by
  obtain ⟨hge, hle⟩ := isUpper_iff.1 hc
  have hletter := h c.toNat (List.mem_range'_1.2 ⟨hge, by omega⟩)
  rwa [Char.ofNat_toNat] at hletter

theorem isUpper_toUpper_of_isLower {c : Char} (h : c.isLower = true) :
    c.toUpper.isUpper = true :=
  of_isLower (P := fun c => c.toUpper.isUpper = true) (by decide) h

theorem toUpper_toUpper (c : Char) : c.toUpper.toUpper = c.toUpper := by
  by_cases hlower : c.isLower = true
  · refine toUpper_of_not_isLower (Bool.eq_false_iff.2 fun h => ?_)
    have hle := (isUpper_iff.1 (isUpper_toUpper_of_isLower hlower)).2
    have hge := (isLower_iff.1 h).1
    omega
  · rw [Bool.not_eq_true] at hlower
    rw [toUpper_of_not_isLower hlower, toUpper_of_not_isLower hlower]

theorem toLower_toUpper (c : Char) : c.toUpper.toLower = c.toLower := by
  by_cases hlower : c.isLower = true
  · exact of_isLower (P := fun c => c.toUpper.toLower = c.toLower) (by decide) hlower
  · rw [Bool.not_eq_true] at hlower
    rw [toUpper_of_not_isLower hlower]

theorem toUpper_toLower (c : Char) : c.toLower.toUpper = c.toUpper := by
  by_cases hupper : c.isUpper = true
  · exact of_isUpper (P := fun c => c.toLower.toUpper = c.toUpper) (by decide) hupper
  · rw [Bool.not_eq_true] at hupper
    rw [toLower_of_not_isUpper hupper]

theorem isBlank_of_isAlpha {c : Char} (h : c.isAlpha = true) : isBlank c = false := by
  rw [Bool.eq_false_iff, isBlank]
  simp only [ne_eq, Bool.or_eq_true, Bool.and_eq_true, decide_eq_true_eq, beq_iff_eq]
  rcases isAlpha_iff.1 h with hc | hc
  · obtain ⟨hge, hle⟩ := isUpper_iff.1 hc
    omega
  · obtain ⟨hge, hle⟩ := isLower_iff.1 hc
    omega

/-- The blanks have no capitals. -/
theorem isBlank_toUpper (c : Char) : isBlank c.toUpper = isBlank c := by
  by_cases hlower : c.isLower = true
  · have hupper := isUpper_toUpper_of_isLower hlower
    rw [isBlank_of_isAlpha (isAlpha_iff.2 (Or.inr hlower)),
      isBlank_of_isAlpha (isAlpha_iff.2 (Or.inl hupper))]
  · rw [Bool.not_eq_true] at hlower
    rw [toUpper_of_not_isLower hlower]

theorem toUpper_of_isDigit {c : Char} (h : c.isDigit = true) : c.toUpper = c := by
  refine toUpper_of_not_isLower (Bool.eq_false_iff.2 fun hl => ?_)
  have hle := (isDigit_iff.1 h).2
  have hge := (isLower_iff.1 hl).1
  omega

theorem toLower_of_isDigit {c : Char} (h : c.isDigit = true) : c.toLower = c := by
  refine toLower_of_not_isUpper (Bool.eq_false_iff.2 fun hu => ?_)
  have hle := (isDigit_iff.1 h).2
  have hge := (isUpper_iff.1 hu).1
  omega

theorem toLower_of_not_ascii {c : Char} (h : 0x80 ≤ c.toNat) : c.toLower = c := by
  refine toLower_of_not_isUpper (Bool.eq_false_iff.2 fun hu => ?_)
  have hle := (isUpper_iff.1 hu).2
  omega

/-! ## Spans -/

/-- The blanks beyond ASCII. -/
def blankSpans : Spans :=
  [(0x85, 0x85), (0xA0, 0xA0), (0x1680, 0x1680), (0x2000, 0x200A), (0x2028, 0x2029),
    (0x202F, 0x202F), (0x205F, 0x205F), (0x3000, 0x3000)]

/-- Whether no interval of `a` meets one of `b`. -/
def Spans.apart (a b : Spans) : Bool :=
  a.all fun s => b.all fun r => Nat.blt s.2 r.1 || Nat.blt r.2 s.1

theorem Spans.has_eq_false_of_apart {a b : Spans} (h : a.apart b = true) {c : Char}
    (ha : a.has c = true) : b.has c = false := by
  obtain ⟨s, hs, hlo, hhi⟩ := Spans.has_iff.1 ha
  refine Bool.eq_false_iff.2 fun hb => ?_
  obtain ⟨r, hr, hlo', hhi'⟩ := Spans.has_iff.1 hb
  have hsr := List.all_eq_true.1 (List.all_eq_true.1 h s hs) r hr
  simp only [Bool.or_eq_true, Nat.blt_eq] at hsr
  omega

theorem ascii_or_has_of_isBlank {c : Char} (h : isBlank c = true) :
    c ∈ [9, 10, 11, 12, 13, 32].map Char.ofNat ∨ (0x80 ≤ c.toNat ∧ blankSpans.has c = true) := by
  have hc : Char.ofNat c.toNat = c := Char.ofNat_toNat c
  simp only [isBlank, Bool.or_eq_true, Bool.and_eq_true, decide_eq_true_eq, beq_iff_eq] at h
  by_cases hascii : c.toNat < 0x80
  · have hcode : c.toNat ∈ [9, 10, 11, 12, 13, 32] := by
      simp only [List.mem_cons, List.not_mem_nil, or_false]
      omega
    exact Or.inl (hc ▸ List.mem_map_of_mem hcode)
  · refine Or.inr ⟨Nat.not_lt.1 hascii, ?_⟩
    rw [Spans.has_iff, blankSpans]
    simp only [List.exists_mem_cons_iff]
    omega

/-- No blank belongs to a word or to a number, in whatever sense. -/
theorem blankSpans_apart {c : Char} (h : blankSpans.has c = true) :
    alphabeticSpans.has c = false ∧ decimalSpans.has c = false ∧
      numberSpans.has c = false ∧ joiningSpans.has c = false :=
  ⟨Spans.has_eq_false_of_apart (by decide +kernel) h,
    Spans.has_eq_false_of_apart (by decide +kernel) h,
    Spans.has_eq_false_of_apart (by decide +kernel) h,
    Spans.has_eq_false_of_apart (by decide +kernel) h⟩

/-- No blank belongs to a word. -/
theorem isWordChar_of_isBlank {c : Char} (h : isBlank c = true) : isWordChar c = false := by
  rcases ascii_or_has_of_isBlank h with h | ⟨hcode, h⟩
  · simp only [List.map_cons, List.map_nil, List.mem_cons, List.not_mem_nil, or_false] at h
    rcases h with rfl | rfl | rfl | rfl | rfl | rfl <;> decide
  · have hunderscore : (c == '_') = false := by
      refine beq_eq_false_iff_ne.2 ?_
      rintro rfl
      exact absurd hcode (by decide)
    obtain ⟨halpha, hdecimal, -, hjoining⟩ := blankSpans_apart h
    simp only [isWordChar, Char.isAlphanum, isAlpha_eq_false hcode, isDigit_eq_false hcode,
      hunderscore, halpha, hdecimal, hjoining, Bool.or_self, Bool.and_false]

end SqlScribe
