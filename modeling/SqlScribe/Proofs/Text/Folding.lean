import SqlScribe.Proofs.Text.Case
import SqlScribe.Proofs.Text.Class

/-!
# Lower case, character by character

Which lower case a capital sigma has depends on the text around it; nothing else does. So a text
without a sigma stands in the lower case of a text exactly when it stands in what its characters
become one by one, and it can be looked for between the characters that stay as they are. Main
statements:

* `infix_lowercase_iff`, `prefix_lowercase_iff`: lower case may be taken character by character;
* `lowerOf_of_isBlank`: blanks have no other lower case;
* `infix_flatMap_iff_pieces`: what is looked for stands in one of the pieces of a text;
* `prefix_flatMap_iff_takeWhile`: what a text begins with stands in the first of them.
-/

namespace SqlScribe

/-! ## Sigmas -/

/-- The character, with the final form of a small sigma written as the other one. -/
def unfinal (c : Char) : Char := if c = 'ς' then 'σ' else c

/-- Neither form of a small sigma is in the text. -/
def SigmaFree (k : Text) : Prop := ∀ c ∈ k, c ≠ 'σ' ∧ c ≠ 'ς'

instance (k : Text) : Decidable (SigmaFree k) := inferInstanceAs (Decidable (∀ c ∈ k, _))

theorem eq_unfinal_iff {c : Char} (h : c ≠ 'σ' ∧ c ≠ 'ς') (d : Char) : c = unfinal d ↔ c = d := by
  unfold unfinal
  split
  · next hd => simp [h.1, hd, h.2]
  · rfl

namespace Text

variable {k t : Text}

theorem prefix_map_unfinal_iff (hk : SigmaFree k) (u : Text) : k <+: u.map unfinal ↔ k <+: u := by
  induction k generalizing u with
  | nil => simp
  | cons c k ih =>
    obtain ⟨hc, hk⟩ := List.forall_mem_cons.1 hk
    cases u with
    | nil => simp
    | cons d u =>
      rw [List.map_cons, List.cons_prefix_cons, List.cons_prefix_cons, eq_unfinal_iff hc, ih hk]

theorem infix_map_unfinal_iff (hk : SigmaFree k) (u : Text) : k <:+: u.map unfinal ↔ k <:+: u := by
  induction u with
  | nil => simp
  | cons d u ih =>
    rw [List.map_cons, List.infix_cons_iff, ih, ← List.map_cons, prefix_map_unfinal_iff hk,
      List.infix_cons_iff]

/-- But for the form of the sigmas every character has a lower case of its own. -/
theorem map_unfinal_lowerAfter (before t : Text) :
    (lowerAfter before t).map unfinal = (t.flatMap lowerOf).map unfinal := by
  have hsigma : ∀ final : Bool, [if final then 'ς' else 'σ'].map unfinal
      = (lowerOf 'Σ').map unfinal := by
    decide +kernel
  induction t generalizing before with
  | nil => rfl
  | cons c t ih =>
    rw [lowerAfter, List.flatMap_cons, List.map_append, List.map_append, ih]
    congr 1
    split
    · next hc =>
      rw [eq_of_beq hc]
      exact hsigma _
    · rfl

/-- What has no sigma stands in a text in lower case when it stands in the lower case of its
characters. -/
theorem infix_lowercase_iff (hk : SigmaFree k) : k <:+: lowercase t ↔ k <:+: t.flatMap lowerOf := by
  rw [← infix_map_unfinal_iff hk, lowercase, map_unfinal_lowerAfter, infix_map_unfinal_iff hk]

theorem prefix_lowercase_iff (hk : SigmaFree k) : k <+: lowercase t ↔ k <+: t.flatMap lowerOf := by
  rw [← prefix_map_unfinal_iff hk, lowercase, map_unfinal_lowerAfter, prefix_map_unfinal_iff hk]

end Text

/-! ## Characters that stay -/

/-- A blank has no other lower case. -/
theorem lowerOf_of_isBlank {c : Char} (h : isBlank c = true) : lowerOf c = [c] := by
  rcases ascii_or_has_of_isBlank h with h | ⟨hcode, h⟩
  · simp only [List.map_cons, List.map_nil, List.mem_cons, List.not_mem_nil, or_false] at h
    rcases h with rfl | rfl | rfl | rfl | rfl | rfl <;> decide
  · have hdotted : (c == 'İ') = false := by
      refine beq_eq_false_iff_ne.2 ?_
      rintro rfl
      exact absurd h (by decide)
    -- no run of the map meets a blank
    have hruns : Spans.has (lowerRuns.map fun r => (r.first, r.last)) c = false :=
      Spans.has_eq_false_of_apart (by decide +kernel) h
    have hnone : CaseRun.image? lowerRuns c.toNat = none := by
      rw [CaseRun.image?, Option.map_eq_none_iff, List.find?_eq_none]
      intro r hr hin
      simp only [Bool.and_eq_true, decide_eq_true_eq] at hin
      have hspan : (r.first, r.last) ∈ lowerRuns.map fun r => (r.first, r.last) :=
        List.mem_map_of_mem (f := fun r : CaseRun => (r.first, r.last)) hr
      exact Bool.eq_false_iff.1 hruns (Spans.has_iff.2 ⟨_, hspan, hin.1⟩)
    rw [lowerOf, if_neg (Nat.not_lt.2 hcode), hdotted, hnone]
    rfl

/-! ## Looking for a text piece by piece -/

namespace Text

variable {p : Char → Bool} {f : Char → Text} {k : Text}

theorem infix_append_cons_iff {a b : Text} {c : Char} (hc : c ∉ k) :
    k <:+: a ++ c :: b ↔ k <:+: a ∨ k <:+: b := by
  refine ⟨infix_append_cons hc, ?_⟩
  rintro (h | h)
  · exact h.trans (List.prefix_append a _).isInfix
  · exact h.trans ⟨a ++ [c], [], by simp⟩

theorem prefix_append_cons_iff {a b : Text} {c : Char} (hc : c ∉ k) :
    k <+: a ++ c :: b ↔ k <+: a := by
  refine ⟨fun h => ?_, fun h => h.trans (List.prefix_append a _)⟩
  rcases List.prefix_or_prefix_of_prefix h (List.prefix_append a (c :: b)) with h' | ⟨x, rfl⟩
  · exact h'
  · cases x with
    | nil => simp
    | cons d x =>
      rw [List.prefix_append_right_inj, List.cons_prefix_cons] at h
      exact absurd (by simp [h.1]) hc

/-- The longest runs of characters that are not in `p`. -/
def runsOf (p : Char → Bool) (t : Text) : List Text := (cut p t).filter fun s => !s.isEmpty

theorem infix_flatMap_iff_cut (hf : ∀ c, p c = true → f c = [c]) (hk : ∀ c ∈ k, p c = false)
    (t : Text) :
    k <:+: t.flatMap f ↔ ∃ s ∈ cut p t, k <:+: s.flatMap f := by
  -- `u` is the part of the first piece that has been read
  have hread : ∀ u : Text, (∀ c ∈ u, p c = false) →
      (k <:+: (u ++ t).flatMap f ↔ ∃ s ∈ cut p (u ++ t), k <:+: s.flatMap f) := by
    induction t with
    | nil =>
      intro u hu
      simp [cut_eq_singleton hu]
    | cons c t ih =>
      intro u hu
      cases hc : p c with
      | true =>
        have hck : c ∉ k := fun hmem => by simp [hk c hmem] at hc
        rw [cut_append_cons hc, cut_eq_singleton hu, List.flatMap_append, List.flatMap_cons,
          hf c hc, List.singleton_append, infix_append_cons_iff hck, ← List.nil_append t,
          ih [] (by simp)]
        simp
      | false =>
        rw [List.append_cons]
        exact ih (u ++ [c]) (by simpa [or_imp, forall_and] using ⟨hu, hc⟩)
  exact hread [] (by simp)

/-- A text without characters of `p`, where those stay as they are, stands in a run. -/
theorem infix_flatMap_iff_pieces (hf : ∀ c, p c = true → f c = [c]) (hk : ∀ c ∈ k, p c = false)
    (hne : k ≠ []) (t : Text) : k <:+: t.flatMap f ↔ ∃ s ∈ runsOf p t, k <:+: s.flatMap f := by
  rw [infix_flatMap_iff_cut hf hk]
  constructor
  · rintro ⟨s, hs, h⟩
    have hsne : s ≠ [] := by
      rintro rfl
      exact hne (List.infix_nil.1 h)
    exact ⟨s, List.mem_filter.2 ⟨hs, by simpa [List.isEmpty_iff] using hsne⟩, h⟩
  · rintro ⟨s, hs, h⟩
    exact ⟨s, (List.mem_filter.1 hs).1, h⟩

/-- A text begins with one without characters of `p`, where those stay as they are, when its first
run does. -/
theorem prefix_flatMap_iff_takeWhile (hf : ∀ c, p c = true → f c = [c]) (hk : ∀ c ∈ k, p c = false)
    (t : Text) : k <+: t.flatMap f ↔ k <+: (t.takeWhile fun c => !p c).flatMap f := by
  conv_lhs => rw [← List.takeWhile_append_dropWhile (p := fun c => !p c) (l := t)]
  cases hrest : t.dropWhile fun c => !p c with
  | nil => rw [List.append_nil]
  | cons c r =>
    have hc : p c = true := by
      have hnot := List.head?_dropWhile_not (fun c => !p c) t
      rw [hrest] at hnot
      simpa using hnot
    have hck : c ∉ k := fun hmem => by simp [hk c hmem] at hc
    rw [List.flatMap_append, List.flatMap_cons, hf c hc, List.singleton_append,
      prefix_append_cons_iff hck]

/-! ## Runs -/

theorem runsOf_append_cons {c : Char} (hc : p c = true) (a b : Text) :
    runsOf p (a ++ c :: b) = runsOf p a ++ runsOf p b := by
  rw [runsOf, cut_append_cons hc, List.filter_append]
  rfl

theorem runsOf_eq_nil {e : Text} (he : ∀ c ∈ e, p c = true) : runsOf p e = [] := by
  induction e with
  | nil => rfl
  | cons c e ih =>
    obtain ⟨hc, he⟩ := List.forall_mem_cons.1 he
    rw [← List.nil_append (c :: e), runsOf_append_cons hc, ih he]
    rfl

/-- An ending of characters in `p` adds no run. -/
theorem runsOf_append_of_all {e : Text} (he : ∀ c ∈ e, p c = true) (t : Text) :
    runsOf p (t ++ e) = runsOf p t := by
  cases e with
  | nil => rw [List.append_nil]
  | cons c e =>
    obtain ⟨hc, he⟩ := List.forall_mem_cons.1 he
    rw [runsOf_append_cons hc, runsOf_eq_nil he, List.append_nil]

/-- Where the text may be cut at blanks, the runs are found word by word. -/
theorem runsOf_eq_flatMap_words (hp : ∀ c, isBlank c = true → p c = true) (t : Text) :
    runsOf p t = (words t).flatMap (runsOf p) := by
  rw [runsOf, cut_eq_flatMap_cut hp, words, List.filter_flatMap]
  induction cut isBlank t with
  | nil => rfl
  | cons s ss ih =>
    rw [List.flatMap_cons, ih, List.filter_cons]
    cases s with
    | nil => rfl
    | cons c s => rfl

end Text

end SqlScribe
