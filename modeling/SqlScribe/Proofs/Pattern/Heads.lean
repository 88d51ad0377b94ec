import SqlScribe.Proofs.Pattern.Search
import SqlScribe.Proofs.Text.Class

/-!
# What a match begins with

The letters that every match of a pattern begins with, in lower case, and the characters that
stand in every match. Both are computed, so that a text without them is known to have no match.
Main statements:

* `exists_head`: a match begins with one of the heads of its pattern;
* `exists_asked`: a character that the pattern asks for stands in every match;
* `allowed_of_spells`: a match holds no other characters than the pattern allows.
-/

namespace SqlScribe

/-! ## Letters in any case -/

/-- A character of the name of a function or a type. -/
def isLabelChar (c : Char) : Bool := c.isAlpha || c == '_'

theorem isWordChar_of_isLabelChar {c : Char} (h : isLabelChar c = true) : isWordChar c = true := by
  rw [isLabelChar, Bool.or_eq_true] at h
  rw [isWordChar, Bool.or_eq_true, Bool.or_eq_true, Char.isAlphanum, Bool.or_eq_true]
  exact Or.inl (h.imp_left Or.inl)

theorem simpleFold_of_isLabelChar {c : Char} (h : isLabelChar c = true) :
    simpleFold c = c.toLower :=
  simpleFold_of_class (by decide) (by decide) h

theorem isLabelChar_toLower {c : Char} : isLabelChar c.toLower = isLabelChar c := by
  cases hupper : c.isUpper with
  | false => rw [toLower_of_not_isUpper hupper]
  | true =>
    exact of_isUpper (P := fun c => isLabelChar c.toLower = isLabelChar c) (by decide) hupper

/-- What is a form of a letter of a name is a character of words. -/
theorem isWordChar_of_isLabelChar_simpleFold {c : Char} (h : isLabelChar (simpleFold c) = true) :
    isWordChar c = true := by
  unfold simpleFold at h
  split at h
  · next hc =>
    rw [beq_iff_eq] at hc
    exact hc ▸ by decide
  · split at h
    · next hc =>
      rw [beq_iff_eq] at hc
      exact hc ▸ by decide +kernel
    · rw [isLabelChar_toLower] at h
      exact isWordChar_of_isLabelChar h

namespace Pattern

/-! ## Heads -/

/-- The letters that the texts of the language begin with, in lower case, one entry for each way
they may begin. It says whether such a text ends behind them. -/
def heads : Pattern → List (Text × Bool)
  | empty | anchor _ => [([], true)]
  | one (.letter c) => [([simpleFold c], true)]
  | one _ | run _ | star _ | lazyStar _ => [([], false)]
  | seq p q => p.heads.flatMap fun x =>
      if x.2 then q.heads.map fun y => (x.1 ++ y.1, y.2) else [x]
  | alt p q => p.heads ++ q.heads
  | commit p | group _ p => p.heads

/-- The text begins with the letters of the entry, and is nothing but them if it says so. -/
structure BeginsWith (t : Text) (x : Text × Bool) : Prop where
  starts : x.1 <+: t
  whole : x.2 = true → t = x.1

theorem beginsWith_nil (t : Text) : BeginsWith t ([], false) :=
  ⟨List.nil_prefix, fun h => absurd h (by simp)⟩

theorem beginsWith_self (t : Text) : BeginsWith t (t, true) :=
  ⟨List.prefix_rfl, fun _ => rfl⟩

/-- Every text of the language begins with one of the heads. -/
theorem exists_head {p : Pattern} {u : Text} (h : p.Spells u) :
    ∃ x ∈ p.heads, BeginsWith (u.map simpleFold) x := by
  induction p generalizing u with
  | empty | anchor a =>
    obtain rfl : u = [] := h
    exact ⟨_, List.mem_singleton_self _, beginsWith_self []⟩
  | one k =>
    cases k with
    | letter c =>
      obtain ⟨x, rfl, hx⟩ := h
      have hfold : simpleFold c = simpleFold x := by simpa [CharClass.has] using hx
      exact ⟨_, List.mem_singleton_self _, by rw [hfold]; exact beginsWith_self _⟩
    | _ => exact ⟨_, List.mem_singleton_self _, beginsWith_nil _⟩
  | run k | star p ih | lazyStar p ih => exact ⟨_, List.mem_singleton_self _, beginsWith_nil _⟩
  | seq p q ihp ihq =>
    obtain ⟨v, w, rfl, hv, hw⟩ := h
    obtain ⟨x, hx, hbegins⟩ := ihp hv
    obtain ⟨y, hy, hbegins'⟩ := ihq hw
    rw [List.map_append]
    cases hends : x.2 with
    | true =>
      refine ⟨(x.1 ++ y.1, y.2), List.mem_flatMap.2 ⟨x, hx, ?_⟩, ?_⟩
      · rw [if_pos hends]
        exact List.mem_map_of_mem hy
      · rw [hbegins.whole hends]
        exact ⟨(List.prefix_append_right_inj _).2 hbegins'.starts,
          fun h => congrArg (x.1 ++ ·) (hbegins'.whole h)⟩
    | false =>
      refine ⟨x, List.mem_flatMap.2 ⟨x, hx, ?_⟩, hbegins.starts.trans (List.prefix_append _ _),
        fun h => absurd h (by simp [hends])⟩
      rw [if_neg (by simp [hends])]
      exact List.mem_singleton_self x
  | alt p q ihp ihq =>
    rcases h with h | h
    · obtain ⟨x, hx, hbegins⟩ := ihp h
      exact ⟨x, List.mem_append_left _ hx, hbegins⟩
    · obtain ⟨x, hx, hbegins⟩ := ihq h
      exact ⟨x, List.mem_append_right _ hx, hbegins⟩
  | commit p ih => exact ih h
  | group n p ih => exact ih h

/-! ## Characters that are asked for -/

/-- Whether a character of a class that `f` picks stands in every text of the language. -/
def asks (f : CharClass → Bool) : Pattern → Bool
  | one k => f k
  | seq p q => p.asks f || q.asks f
  | alt p q => p.asks f && q.asks f
  | commit p | group _ p => p.asks f
  | empty | anchor _ | run _ | star _ | lazyStar _ => false

theorem exists_asked {f : CharClass → Bool} {p : Pattern} {u : Text} (hf : p.asks f = true)
    (h : p.Spells u) : ∃ c ∈ u, ∃ k, f k = true ∧ k.has c = true := by
  induction p generalizing u with
  | empty | anchor a | run k | star p ih | lazyStar p ih => exact absurd hf Bool.false_ne_true
  | one k =>
    obtain ⟨x, rfl, hx⟩ := h
    exact ⟨x, List.mem_singleton_self x, k, hf, hx⟩
  | seq p q ihp ihq =>
    obtain ⟨v, w, rfl, hv, hw⟩ := h
    rw [asks, Bool.or_eq_true] at hf
    rcases hf with hf | hf
    · obtain ⟨c, hc, hk⟩ := ihp hf hv
      exact ⟨c, List.mem_append_left w hc, hk⟩
    · obtain ⟨c, hc, hk⟩ := ihq hf hw
      exact ⟨c, List.mem_append_right v hc, hk⟩
  | alt p q ihp ihq =>
    rw [asks, Bool.and_eq_true] at hf
    exact h.elim (ihp hf.1) (ihq hf.2)
  | commit p ih => exact ih hf h
  | group n p ih => exact ih hf h

/-- In a text without the characters that the pattern asks for there is no match. -/
theorem findAll_eq_nil {f : CharClass → Bool} {p : Pattern} {t : Text} (hf : p.asks f = true)
    (h : ∀ c ∈ t, ∀ k, f k = true → k.has c = false) : p.findAll t = [] := by
  refine List.eq_nil_iff_forall_not_mem.2 fun m hm => ?_
  obtain ⟨u, r, rfl, hof⟩ := isOf_of_mem_findAll hm
  obtain ⟨c, hc, k, hk, hhas⟩ := exists_asked hf hof.spells
  exact Bool.false_ne_true
    ((h c (List.mem_append_right u (hof.mem_of_mem_text hc)) k hk).symm.trans hhas)

/-! ## Characters that may stand -/

/-- Whether every text of the language consists of characters of classes that `f` picks. -/
def allows (f : CharClass → Bool) : Pattern → Bool
  | empty | anchor _ => true
  | one k | run k => f k
  | seq p q | alt p q => p.allows f && q.allows f
  | star p | lazyStar p | commit p | group _ p => p.allows f

theorem allowed_of_spells {f : CharClass → Bool} {p : Pattern} {u : Text} (hf : p.allows f = true)
    (h : p.Spells u) : ∀ c ∈ u, ∃ k, f k = true ∧ k.has c = true := by
  induction p generalizing u with
  | empty | anchor a =>
    obtain rfl : u = [] := h
    simp
  | one k =>
    obtain ⟨x, rfl, hx⟩ := h
    exact List.forall_mem_singleton.2 ⟨k, hf, hx⟩
  | run k => exact fun c hc => ⟨k, hf, h c hc⟩
  | seq p q ihp ihq =>
    obtain ⟨v, w, rfl, hv, hw⟩ := h
    rw [allows, Bool.and_eq_true] at hf
    exact fun c hc => (List.mem_append.1 hc).elim (ihp hf.1 hv c) (ihq hf.2 hw c)
  | alt p q ihp ihq =>
    rw [allows, Bool.and_eq_true] at hf
    exact h.elim (ihp hf.1) (ihq hf.2)
  | star p ih | lazyStar p ih =>
    obtain ⟨vs, rfl, hvs⟩ := h
    intro c hc
    obtain ⟨v, hv, hc⟩ := List.mem_flatten.1 hc
    exact ih hf (hvs v hv) c hc
  | commit p ih | group n p ih => exact ih hf h

end Pattern

end SqlScribe
