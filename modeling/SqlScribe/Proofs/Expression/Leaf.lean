import SqlScribe.Proofs.Expression.Arguments
import SqlScribe.Proofs.Expression.Scanning

/-!
# Leaves

The texts that expressions are built from: names, whole numbers and literals. Main statements:

* `Leaf.plain`, `Leaf.inert`: leaves stand for themselves, to rules and to the scanner;
* `Leaf.startsApart`, `Expr.startsApart_node`: no expression begins with a word and a blank.
-/

namespace SqlScribe

open SqlScribe.Expr Outline

/-- The literal of some texts: quotations one directly behind the other, where two quotes that meet
stand for a quote that is said. -/
def Text.quoteAll (ws : List Text) : Text := ws.flatMap Text.quote

/-- A name or a number, a number below zero, or a literal. No name is the first word of a clause,
and no literal says a parenthesis or a mark of quoted names. -/
inductive Leaf : Text → Prop
  | word {w : Text} (hne : w ≠ []) (hw : ∀ c ∈ w, isIdentifierChar c = true)
      (hres : w.asciiUpper ∉ reservedWords) : Leaf w
  | negative {w : Text} (hne : w ≠ []) (hw : ∀ c ∈ w, c.isDigit = true) : Leaf ('-' :: w)
  | literal {ws : List Text} (hne : ws ≠ [])
      (hws : ∀ w ∈ ws, '\'' ∉ w ∧ ∀ c ∈ w, c ∉ ['(', ')', '[', ']', '\x60']) :
      Leaf (Text.quoteAll ws)

theorem asciiUpper_not_mem_of_digits {w : Text} (hw : ∀ c ∈ w, c.isDigit = true) :
    w.asciiUpper ∉ reservedWords := by
  have hsame : w.asciiUpper = w := by
    rw [Text.asciiUpper, List.map_congr_left fun c hc => toUpper_of_isDigit (hw c hc), List.map_id']
  intro hmem
  rw [hsame] at hmem
  have hletters : ∀ r ∈ reservedWords, r ≠ [] ∧ ∀ c ∈ r, c.isDigit = false := by decide
  obtain ⟨hne, hr⟩ := hletters w hmem
  obtain ⟨c, w, rfl⟩ := List.exists_cons_of_ne_nil hne
  exact absurd (hw c List.mem_cons_self) (by simp [hr c List.mem_cons_self])

/-- Digits are an operand. -/
theorem Leaf.digits {w : Text} (hne : w ≠ []) (hw : ∀ c ∈ w, c.isDigit = true) : Leaf w :=
  .word hne (fun c hc => isIdentifierChar_of_isDigit (hw c hc)) (asciiUpper_not_mem_of_digits hw)

namespace Leaf

variable {t : Text}

theorem plain (h : Leaf t) : Plain t := by
  cases h with
  | word hne hw _ => exact plain_of_word hne hw
  | negative hne hw =>
    exact (plain_of_word hne fun c hc => isIdentifierChar_of_isDigit (hw c hc)).minus
  | @literal ws hne hws =>
    induction ws with
    | nil => exact absurd rfl hne
    | cons w ws ih =>
      obtain ⟨⟨hquote, hmarks⟩, hrest⟩ := List.forall_mem_cons.1 hws
      have hfirst := Plain.quote hquote hmarks
      by_cases hnil : ws = []
      · subst hnil
        rwa [Text.quoteAll, List.flatMap_singleton]
      · exact hfirst.append (ih hnil hrest)

theorem inert (h : Leaf t) : Inert t := by
  cases h with
  | word hne hw hres => exact inert_run hne hw hres
  | @negative w hne hw =>
    have hminus : Inert ['-'] := inert_sign (by decide) rfl
    have hdigits : Inert w := inert_run hne (fun c hc => isIdentifierChar_of_isDigit (hw c hc))
      (asciiUpper_not_mem_of_digits hw)
    exact hminus.append hdigits (.of_last fun c hc => Option.some.inj hc ▸ by decide)
  | @literal ws hne hws =>
    induction ws with
    | nil => exact absurd rfl hne
    | cons w ws ih =>
      obtain ⟨⟨hquote, -⟩, hrest⟩ := List.forall_mem_cons.1 hws
      have hfirst : Inert (Text.quote w) := inert_quoted hquote
      by_cases hnil : ws = []
      · subst hnil
        rwa [Text.quoteAll, List.flatMap_singleton]
      · refine hfirst.append (ih hnil hrest) (.of_last fun c hc => ?_)
        rw [Text.quote, ← List.cons_append, List.getLast?_concat] at hc
        exact Option.some.inj hc ▸ by decide

end Leaf

/-! ## The beginning of an expression -/

/-- In front of the first blank stands more than a word. -/
def Text.StartsApart (t : Text) : Prop :=
  ∀ v c w, t = v ++ c :: w → isBlank c = true → ∃ x ∈ v, isWordChar x = false

theorem Text.StartsApart.of_not_blank {t : Text} (h : ∀ c ∈ t, isBlank c = false) :
    StartsApart t := by
  rintro v c w rfl hc
  exact absurd hc (by simp [h c (by simp)])

/-- A text that has a sign in front of all blanks. -/
theorem Text.StartsApart.of_sign {u t : Text} {x : Char} (hu : ∀ c ∈ u, isBlank c = false)
    (hblank : isBlank x = false) (hword : isWordChar x = false) : StartsApart (u ++ x :: t) := by
  intro v c w hsplit hc
  rcases List.append_eq_append_iff.1 hsplit with ⟨s, rfl, hs⟩ | ⟨s, rfl, hs⟩
  · cases s with
    | nil =>
      obtain ⟨rfl, -⟩ := List.cons.inj hs
      exact absurd hc (by simp [hblank])
    | cons d s =>
      obtain ⟨rfl, -⟩ := List.cons.inj hs
      exact ⟨x, by simp, hword⟩
  · cases s with
    | nil =>
      obtain ⟨rfl, -⟩ := List.cons.inj hs
      exact absurd hc (by simp [hblank])
    | cons d s =>
      obtain ⟨rfl, -⟩ := List.cons.inj hs
      exact absurd hc (by simp [hu c (by simp)])

theorem Leaf.startsApart {t : Text} (h : Leaf t) : t.StartsApart := by
  cases h with
  | word _ hw _ => exact .of_not_blank fun c hc => isBlank_of_isIdentifierChar (hw c hc)
  | @negative w _ hw =>
    exact Text.StartsApart.of_sign (u := []) (x := '-') (by simp) (by decide) (by decide)
  | @literal ws hne _ =>
    obtain ⟨w, ws, rfl⟩ := List.exists_cons_of_ne_nil hne
    exact Text.StartsApart.of_sign (u := []) (x := '\'') (by simp) (by decide) (by decide)

theorem Expr.startsApart_node {g : Text} {parts : List Expr} (hg : ∀ c ∈ g, isLabelChar c = true) :
    (node g parts).write.StartsApart := by
  rw [write_node]
  exact .of_sign (fun c hc => isBlank_of_isLabelChar (hg c hc)) (by decide) (by decide)

end SqlScribe
