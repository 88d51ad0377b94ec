import SqlScribe.Proofs.Statement.Gate
import SqlScribe.Proofs.Text.Class
import SqlScribe.Proofs.Text.Size

/-!
# Texts the gate has nothing against

A text is tame when it can be part of an accepted statement: it is short, and neither a
semicolon nor a forbidden keyword stands in it. Texts are put together at breaks, the
characters no forbidden keyword is written with, so that none comes about where two of them
meet. Main statements:

* `Harmless.append`, `Harmless.collapse`: texts without forbidden keywords;
* `Tame.append`, `Tame.join`: tame texts put together;
* `accepted_normalize`: the normal form of a short and tame `SELECT` is accepted.
-/

namespace SqlScribe

namespace Statement

/-! ## Breaks -/

/-- A character that no forbidden keyword is written with, in either case. -/
def isBreak (c : Char) : Bool := forbiddenKeywords.all fun k => !k.contains c.toLower

theorem not_mem_of_isBreak {c : Char} (h : isBreak c = true) {k : Text}
    (hk : k ∈ forbiddenKeywords) : c.toLower ∉ k := by
  have hbreak := List.all_eq_true.1 h k hk
  simpa using hbreak

/-- A class that no character of a forbidden keyword belongs to is made of breaks. -/
theorem isBreak_of_class {p : Char → Bool}
    (hp : (forbiddenKeywords.all fun k => k.all fun d => !p d) = true) {c : Char}
    (hlower : c.toLower = c) (hc : p c = true) : isBreak c = true := by
  refine List.all_eq_true.2 fun k hk => ?_
  have hout : c ∉ k := by
    intro hmem
    have hd := List.all_eq_true.1 (List.all_eq_true.1 hp k hk) c hmem
    rw [hc] at hd
    exact absurd hd (by decide)
  simpa [hlower] using hout

theorem isBreak_of_isDigit {c : Char} (h : c.isDigit = true) : isBreak c = true :=
  isBreak_of_class (p := Char.isDigit) (by decide) (toLower_of_isDigit h) h

theorem isBreak_of_not_ascii {c : Char} (h : 0x80 ≤ c.toNat) : isBreak c = true :=
  isBreak_of_class (p := fun d => Nat.ble 0x80 d.toNat) (by decide) (toLower_of_not_ascii h)
    (Nat.ble_eq_true_of_le h)

/-- A break stands where the two texts meet. -/
def Seam (a b : Text) : Prop := a.getLast?.any isBreak = true ∨ b.head?.any isBreak = true

/-- Whether a text begins and ends with a break. -/
def isSeparator (sep : Text) : Bool := sep.head?.any isBreak && sep.getLast?.any isBreak

theorem seam_of_breaks {a b : Text} (hne : a ≠ []) (h : ∀ c ∈ a, isBreak c = true) :
    Seam a b := by
  refine Or.inl (Option.any_eq_true _ _ |>.2 ⟨_, List.getLast?_eq_some_getLast hne, ?_⟩)
  exact h _ (List.getLast_mem hne)

/-- A separator makes two seams, one in front of it and one behind. -/
theorem seam_separator {a sep b : Text} (h : isSeparator sep = true) :
    Seam a sep ∧ Seam (a ++ sep) b := by
  rw [isSeparator, Bool.and_eq_true] at h
  refine ⟨Or.inr h.1, Or.inl ?_⟩
  obtain ⟨c, hc, hbreak⟩ := (Option.any_eq_true _ _).1 h.2
  exact (Option.any_eq_true _ _).2 ⟨c, List.mem_getLast?_append_of_mem_getLast? hc, hbreak⟩

/-! ## Texts without forbidden keywords -/

/-- No forbidden keyword stands in the text, in either case. -/
def Harmless (t : Text) : Prop := ∀ k ∈ forbiddenKeywords, ¬ k <:+: t.asciiLower

/-- Whether no forbidden keyword stands in the text. -/
def isHarmless (t : Text) : Bool := forbiddenKeywords.all fun k => !Text.occursIn k t.asciiLower

theorem isHarmless_iff {t : Text} : isHarmless t = true ↔ Harmless t := by
  simp only [isHarmless, Harmless, List.all_eq_true, Bool.not_eq_true', Bool.eq_false_iff, ne_eq,
    Text.occursIn_iff]

theorem harmless_nil : Harmless [] := isHarmless_iff.1 (by decide)

theorem Harmless.of_infix {a t : Text} (h : Harmless t) (ha : a <:+: t) : Harmless a :=
  fun k hk hin => h k hk (hin.trans (ha.map Char.toLower))

/-- A break keeps what is in front of it apart from what is behind. -/
theorem Harmless.append_cons {a b : Text} {c : Char} (ha : Harmless a) (hb : Harmless b)
    (hc : isBreak c = true) : Harmless (a ++ c :: b) := by
  intro k hk hin
  rw [Text.asciiLower, List.map_append, List.map_cons] at hin
  rcases Text.infix_append_cons (not_mem_of_isBreak hc hk) hin with h | h
  · exact ha k hk h
  · exact hb k hk h

theorem Harmless.append {a b : Text} (ha : Harmless a) (hb : Harmless b) (h : Seam a b) :
    Harmless (a ++ b) := by
  -- the break is the end of `a` or the head of `b`, and what is left of that text is harmless
  rcases h with h | h
  · obtain ⟨c, hc, hbreak⟩ := (Option.any_eq_true _ _).1 h
    obtain ⟨u, rfl⟩ := List.getLast?_eq_some_iff.1 hc
    rw [List.append_assoc, List.singleton_append]
    exact (ha.of_infix (List.prefix_append u [c]).isInfix).append_cons hb hbreak
  · obtain ⟨c, hc, hbreak⟩ := (Option.any_eq_true _ _).1 h
    obtain ⟨u, rfl⟩ := List.head?_eq_some_iff.1 hc
    exact ha.append_cons (hb.of_infix (List.suffix_cons c u).isInfix) hbreak

theorem harmless_of_breaks {t : Text} (h : ∀ c ∈ t, isBreak c = true) : Harmless t := by
  induction t with
  | nil => exact harmless_nil
  | cons c t ih =>
    have ht := ih fun d hd => h d (List.mem_cons_of_mem c hd)
    exact Harmless.append_cons harmless_nil ht (h c List.mem_cons_self)

theorem Harmless.join {sep : Text} (hs : Harmless sep) (hsep : isSeparator sep = true)
    {ts : List Text} (h : ∀ t ∈ ts, Harmless t) : Harmless (Text.join sep ts) := by
  induction ts with
  | nil => exact harmless_nil
  | cons t ts ih =>
    have ht := h t List.mem_cons_self
    by_cases hts : ts = []
    · subst hts
      exact ht
    · have hrest := ih fun u hu => h u (List.mem_cons_of_mem t hu)
      obtain ⟨hfront, hback⟩ := seam_separator (a := t) (b := Text.join sep ts) hsep
      rw [Text.join_cons _ _ hts]
      exact (ht.append hs hfront).append hrest hback

/-- Collapsing a text brings no forbidden keyword about: none has a blank in it. -/
theorem Harmless.collapse {t : Text} (h : Harmless t) : Harmless (Text.collapse t) :=
  Harmless.join (isHarmless_iff.1 (by decide)) (by decide)
    fun _ hw => h.of_infix (Text.infix_of_mem_words hw)

/-! ## Tame texts -/

/-- A text that can be part of an accepted statement and takes `n` bytes at most. -/
structure Tame (n : Nat) (t : Text) : Prop where
  /-- Every character has its ASCII lower case. -/
  folds : ∀ c ∈ t, c ≠ 'Σ' ∧ lowerOf c = [c.toLower]
  single : ';' ∉ t
  harmless : Harmless t
  size : Text.utf8Size t ≤ n

/-- Whether a text is tame that is made of ASCII characters. -/
def isTameAscii (n : Nat) (t : Text) : Bool :=
  t.isAscii && !t.contains ';' && isHarmless t && Nat.ble t.length n

theorem folds_of_ascii {c : Char} (h : c.toNat < 0x80) : c ≠ 'Σ' ∧ lowerOf c = [c.toLower] := by
  refine ⟨?_, lowerOf_of_ascii h⟩
  rintro rfl
  exact absurd h (by decide)

theorem tame_of_isTameAscii {n : Nat} {t : Text} (h : isTameAscii n t = true) : Tame n t := by
  simp only [isTameAscii, Bool.and_eq_true, Bool.not_eq_true', Nat.ble_eq] at h
  obtain ⟨⟨⟨hascii, hsingle⟩, hharmless⟩, hlength⟩ := h
  refine ⟨fun c hc => ?_, by simpa using hsingle, isHarmless_iff.1 hharmless, ?_⟩
  · exact folds_of_ascii (of_decide_eq_true (List.all_eq_true.1 hascii c hc))
  · rw [Text.utf8Size_of_isAscii hascii]
    exact hlength

namespace Tame

variable {m n : Nat} {a b t : Text}

theorem mono (h : Tame m t) (hmn : m ≤ n) : Tame n t :=
  ⟨h.folds, h.single, h.harmless, h.size.trans hmn⟩

theorem append (ha : Tame m a) (hb : Tame n b) (h : Seam a b) : Tame (m + n) (a ++ b) := by
  refine ⟨fun c hc => ?_, fun hc => ?_, ha.harmless.append hb.harmless h, ?_⟩
  · rcases List.mem_append.1 hc with hc | hc
    · exact ha.folds c hc
    · exact hb.folds c hc
  · rcases List.mem_append.1 hc with hc | hc
    · exact ha.single hc
    · exact hb.single hc
  · rw [Text.utf8Size_append]
    exact Nat.add_le_add ha.size hb.size

/-- Two tame texts with a separator between them. -/
theorem separated {l : Nat} {sep : Text} (ha : Tame m a) (hs : Tame l sep)
    (hsep : isSeparator sep = true) (hb : Tame n b) : Tame (m + l + n) (a ++ sep ++ b) :=
  (ha.append hs (seam_separator (b := b) hsep).1).append hb (seam_separator hsep).2

/-- Tame texts with a separator between neighbours are tame together. -/
theorem join {l : Nat} {sep : Text} (hs : Tame l sep) (hsep : isSeparator sep = true)
    {ts : List Text} (h : ∀ t ∈ ts, Tame n t) :
    Tame (ts.length * (n + l)) (Text.join sep ts) := by
  refine ⟨fun c hc => ?_, fun hc => ?_, hs.harmless.join hsep fun t ht => (h t ht).harmless, ?_⟩
  · rcases Text.mem_join hc with hc | ⟨t, ht, hc⟩
    · exact hs.folds c hc
    · exact (h t ht).folds c hc
  · rcases Text.mem_join hc with hc | ⟨t, ht, hc⟩
    · exact hs.single hc
    · exact (h t ht).single hc
  · calc Text.utf8Size (Text.join sep ts) ≤ Text.totalSize (Text.utf8Size sep) ts :=
          Text.utf8Size_join_le sep ts
      _ ≤ ts.length * (n + Text.utf8Size sep) := Text.totalSize_le_mul fun t ht => (h t ht).size
      _ ≤ ts.length * (n + l) := Nat.mul_le_mul_left _ (Nat.add_le_add_left hs.size n)

theorem collapse (h : Tame n t) : Tame (n + 1) (Text.collapse t) := by
  refine ⟨fun c hc => ?_, fun hc => ?_, h.harmless.collapse, ?_⟩
  · rcases Text.mem_collapse hc with rfl | hc
    · exact folds_of_ascii (by decide)
    · exact h.folds c hc
  · rcases Text.mem_collapse hc with hc | hc
    · exact absurd hc (by decide)
    · exact h.single hc
  · exact (Text.utf8Size_collapse_le t).trans (Nat.add_le_add_right h.size 1)

end Tame

/-! ## Accepted texts -/

theorem segmentCount_of_single {t : Text} (h : ';' ∉ t) : segmentCount t ≤ 1 := by
  have hcut : Text.cut (· == ';') t = [t] := by
    refine Text.cut_eq_singleton fun c hc => beq_eq_false_iff_ne.2 ?_
    rintro rfl
    exact h hc
  rw [segmentCount, hcut]
  exact List.length_filter_le _ _

theorem beginsWithSelect_of_prefix {t : Text}
    (hfolded : folded (t ++ [';']) = t.asciiLower ++ [';']) (h : "SELECT".toList <+: t) :
    beginsWithSelect (t ++ [';']) = true := by
  have hlower : "select".toList <+: t.asciiLower := h.map Char.toLower
  rw [beginsWithSelect_iff, hfolded]
  exact hlower.trans (List.prefix_append _ _)

/-- A single-spaced tame text that begins with `SELECT` is accepted with a `;` behind it. -/
theorem accepted_of_tame {n : Nat} {t : Text} (h : Tame n t) (hbody : IsBody t)
    (hselect : "SELECT".toList <+: t) (hn : n + 1 ≤ maxBytes) : Accepted (t ++ [';']) := by
  have hfolds : ∀ c ∈ t ++ [';'], c ≠ 'Σ' ∧ lowerOf c = [c.toLower] := by
    intro c hc
    rcases List.mem_append.1 hc with hc | hc
    · exact h.folds c hc
    · rw [List.mem_singleton.1 hc]
      exact folds_of_ascii (by decide)
  have hfolded : folded (t ++ [';']) = t.asciiLower ++ [';'] := by
    rw [folded, (singleSpaced_body_semicolon hbody).trim_eq_self,
      Text.lowercase_eq_asciiLower hfolds, Text.asciiLower, List.map_append]
    rfl
  have hharmless : Harmless (t ++ [';']) := h.harmless.append_cons harmless_nil (by decide)
  rw [accepted_iff]
  refine ⟨fun k hk hin => hharmless k hk ?_, beginsWithSelect_of_prefix hfolded hselect, ?_, ?_⟩
  · rw [hfolded] at hin
    rwa [Text.asciiLower, List.map_append]
  · have hone : Text.utf8Size [';'] = 1 := rfl
    have hsize := h.size
    rw [Text.utf8Size_append, hone]
    omega
  · have hsegments := segmentCount_of_single h.single
    have hnil : segmentCount [] = 0 := rfl
    rw [segmentCount_append, hnil]
    omega

/-- **Acceptance.** The normal form of a short and tame text that begins with `SELECT` and
goes on is accepted. -/
theorem accepted_normalize {n : Nat} {r : Text} (h : Tame n ("SELECT " ++ r))
    (hr : Text.words r ≠ []) (hn : n + 2 ≤ maxBytes) : Accepted (normalize ("SELECT " ++ r)) := by
  have ht := h.collapse
  have hcollapse : Text.collapse ("SELECT " ++ r) = "SELECT" ++ ' ' :: Text.collapse r :=
    Text.collapse_append_space (a := "SELECT") (by decide) hr
  have hbody := isBody_of_single (Text.singleSpaced_collapse ("SELECT " ++ r)) ht.single
  rw [normalize, Text.dropEnd_eq_self hbody.last]
  exact accepted_of_tame ht hbody (hcollapse ▸ List.prefix_append _ _) (by omega)

end Statement

end SqlScribe
