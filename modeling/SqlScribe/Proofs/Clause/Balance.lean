import SqlScribe.Proofs.Clause.Literal
import SqlScribe.Proofs.Clause.Reading

/-!
# Balanced texts

A text is balanced when its quotations are closed and its parentheses outside of quotations are
balanced. `Balanced` says so by the ways in which such a text is put together; a reader that
refuses a parenthesis which closes nothing decides it. Main statements:

* `balanced_iff`: the balanced texts are those that a reader comes out of as it went in;
* `balanced_append_iff`: at its top level a balanced text is cut into balanced texts;
* `balanced_trim`, `balanced_bodyOf`: what stands around a statement does not matter.
-/

namespace SqlScribe

/-- The character that ends a quotation begun with `c`. -/
def closerOf? (c : Char) : Option Char :=
  if c = '\'' ∨ c = '"' ∨ c = '\x60' then some c else if c = '[' then some ']' else none

/-- All quotations are closed, and the parentheses outside of them are balanced. -/
inductive Balanced : Text → Prop where
  | nil : Balanced []
  | plain {c : Char} {t : Text} (hquote : closerOf? c = none) (hopen : c ≠ '(') (hclose : c ≠ ')')
      (ht : Balanced t) : Balanced (c :: t)
  | quoted {c e : Char} {u t : Text} (hquote : closerOf? c = some e) (hu : e ∉ u)
      (ht : Balanced t) : Balanced (c :: (u ++ e :: t))
  | enclosed {u t : Text} (hu : Balanced u) (ht : Balanced t) : Balanced ('(' :: (u ++ ')' :: t))

/-! ## Reading one character -/

namespace Nesting

theorem read_closing {d : Nat} {e : Char} : read ⟨d, some e⟩ e = ⟨d, none⟩ := by
  simp [read]

theorem read_inside {d : Nat} {c e : Char} (h : c ≠ e) : read ⟨d, some e⟩ c = ⟨d, some e⟩ := by
  simp [read, h]

theorem read_opening {d : Nat} {c e : Char} (h : closerOf? c = some e) :
    read ⟨d, none⟩ c = ⟨d, some e⟩ := by
  rw [closerOf?] at h
  split at h
  · next hc =>
    obtain rfl := Option.some.inj h
    rcases hc with rfl | rfl | rfl <;> rfl
  · split at h
    · next hc =>
      obtain rfl := Option.some.inj h
      subst hc
      rfl
    · exact absurd h (by simp)

theorem read_plain {d : Nat} {c : Char} (hquote : closerOf? c = none) (hopen : c ≠ '(')
    (hclose : c ≠ ')') : read ⟨d, none⟩ c = ⟨d, none⟩ := by
  obtain ⟨⟨hsingle, hdouble, hback⟩, hbracket⟩ :
      (c ≠ '\'' ∧ c ≠ '"' ∧ c ≠ '\x60') ∧ c ≠ '[' := by
    rw [closerOf?] at hquote
    split at hquote
    · exact absurd hquote (by simp)
    · next hmarks => simp_all
  simp [read, hsingle, hdouble, hback, hbracket, hopen, hclose]

end Nesting

namespace Outline

/-! ## Reading a text -/

/-- The nesting behind a text, `none` when a parenthesis in it closes nothing. -/
def nestingAfter? (n : Nesting) : Text → Option Nesting
  | [] => some n
  | c :: t => if c = ')' ∧ n = .top then none else nestingAfter? (n.read c) t

variable {n m : Nesting} {c : Char} {t u v : Text}

theorem nestingAfter?_cons (h : ¬ (c = ')' ∧ n = .top)) :
    nestingAfter? n (c :: t) = nestingAfter? (n.read c) t :=
  if_neg h

theorem nestingAfter?_append (n : Nesting) (t u : Text) :
    nestingAfter? n (t ++ u) = (nestingAfter? n t).bind fun m => nestingAfter? m u := by
  induction t generalizing n with
  | nil => rfl
  | cons c t ih =>
    rw [List.cons_append, nestingAfter?, nestingAfter?]
    split
    · rfl
    · exact ih (n.read c)

/-- Where every parenthesis closes one, the text is read as the scanner reads it. -/
theorem nestingAfter_of_nestingAfter? (h : nestingAfter? n t = some m) : nestingAfter n t = m := by
  induction t generalizing n with
  | nil => exact Option.some.inj h
  | cons c t ih =>
    rw [nestingAfter?] at h
    split at h
    · exact absurd h (by simp)
    · exact ih h

/-- A quotation is read up to its closing character. -/
theorem nestingAfter?_quotation {d : Nat} {e : Char} (hu : e ∉ u) :
    nestingAfter? ⟨d, some e⟩ (u ++ e :: t) = nestingAfter? ⟨d, none⟩ t := by
  induction u with
  | nil => rw [List.nil_append, nestingAfter?_cons (by simp [Nesting.top]), Nesting.read_closing]
  | cons c u ih =>
    rw [List.mem_cons, not_or] at hu
    rw [List.cons_append, nestingAfter?_cons (by simp [Nesting.top]),
      Nesting.read_inside (Ne.symm hu.1), ih hu.2]

/-- A quotation that is left again has its closing character. -/
theorem exists_closing {d : Nat} {e : Char} (h : nestingAfter? ⟨d, some e⟩ t = some .top) :
    ∃ u r, e ∉ u ∧ t = u ++ e :: r ∧ nestingAfter? ⟨d, none⟩ r = some .top := by
  by_cases he : e ∈ t
  · obtain ⟨u, r, rfl, hu⟩ := List.eq_append_cons_of_mem he
    exact ⟨u, r, hu, rfl, by rwa [nestingAfter?_quotation hu] at h⟩
  · -- without it the reader stays inside
    have hinside : nestingAfter? ⟨d, some e⟩ t = some ⟨d, some e⟩ := by
      clear h
      induction t with
      | nil => rfl
      | cons c t ih =>
        rw [List.mem_cons, not_or] at he
        rw [nestingAfter?_cons (by simp [Nesting.top]), Nesting.read_inside (Ne.symm he.1), ih he.2]
    rw [hinside] at h
    exact absurd h (by simp [Nesting.top])

end Outline

open Outline

variable {t u v : Text}

/-! ## Balanced texts are read over -/

/-- Behind a balanced text the reader is where it was, outside of quotations. -/
theorem Balanced.nestingAfter?_append (h : Balanced t) (d : Nat) (r : Text) :
    nestingAfter? ⟨d, none⟩ (t ++ r) = nestingAfter? ⟨d, none⟩ r := by
  induction h generalizing d r with
  | nil => rfl
  | plain hquote hopen hclose _ ih =>
    rw [List.cons_append, nestingAfter?_cons fun h => hclose h.1,
      Nesting.read_plain hquote hopen hclose, ih]
  | quoted hquote hu _ ih =>
    have hclose : ∀ {c e : Char}, closerOf? c = some e → c ≠ ')' := by
      rintro c e hc rfl
      have hnone : closerOf? ')' = none := by decide
      rw [hnone] at hc
      exact absurd hc (by simp)
    rw [List.cons_append, nestingAfter?_cons fun h => hclose hquote h.1,
      Nesting.read_opening hquote, List.append_assoc, List.cons_append,
      nestingAfter?_quotation hu, ih]
  | enclosed _ _ ihu iht =>
    rw [List.cons_append, nestingAfter?_cons (by simp), List.append_assoc, List.cons_append]
    show nestingAfter? ⟨d + 1, none⟩ _ = _
    rw [ihu, nestingAfter?_cons (by simp [Nesting.top])]
    exact iht d r

/-- A text that closes `d` parentheses opened in front of it, and is balanced otherwise. -/
inductive Closing : Nat → Text → Prop where
  | balanced {t : Text} (h : Balanced t) : Closing 0 t
  | behind {d : Nat} {u t : Text} (hu : Balanced u) (ht : Closing d t) :
      Closing (d + 1) (u ++ ')' :: t)

namespace Closing

variable {d : Nat}

theorem plain {c : Char} (hquote : closerOf? c = none) (hopen : c ≠ '(') (hclose : c ≠ ')')
    (h : Closing d t) : Closing d (c :: t) := by
  cases h with
  | balanced h => exact balanced (.plain hquote hopen hclose h)
  | behind hu ht => exact behind (.plain hquote hopen hclose hu) ht

theorem quoted {c e : Char} (hquote : closerOf? c = some e) (hu : e ∉ u) (h : Closing d t) :
    Closing d (c :: (u ++ e :: t)) := by
  cases h with
  | balanced h => exact balanced (.quoted hquote hu h)
  | behind hv ht =>
    have hbehind := behind (.quoted hquote hu hv) ht
    rwa [List.cons_append, List.append_assoc, List.cons_append] at hbehind

theorem enclosed (h : Closing (d + 1) t) : Closing d ('(' :: t) := by
  cases h with
  | behind hu ht =>
    cases ht with
    | balanced ht => exact balanced (.enclosed hu ht)
    | behind hv hr =>
      have hbehind := behind (.enclosed hu hv) hr
      rwa [List.cons_append, List.append_assoc, List.cons_append] at hbehind

end Closing

/-- What a reader at depth `d` comes out of at the top closes `d` parentheses. -/
theorem closing_of_nestingAfter? {d : Nat} (t : Text)
    (h : nestingAfter? ⟨d, none⟩ t = some .top) : Closing d t := by
  cases t with
  | nil =>
    obtain rfl : d = 0 := congrArg Nesting.depth (Option.some.inj h)
    exact .balanced .nil
  | cons c t =>
    rw [nestingAfter?] at h
    split at h
    · exact absurd h (by simp)
    · next hclose =>
      cases hquote : closerOf? c with
      | some e =>
        rw [Nesting.read_opening hquote] at h
        obtain ⟨u, r, hu, rfl, hr⟩ := exists_closing h
        exact (closing_of_nestingAfter? r hr).quoted hquote hu
      | none =>
        by_cases hopen : c = '('
        · subst hopen
          exact (closing_of_nestingAfter? t h).enclosed
        · by_cases hparen : c = ')'
          · subst hparen
            cases d with
            | zero => exact absurd ⟨rfl, rfl⟩ hclose
            | succ d => exact .behind .nil (closing_of_nestingAfter? t h)
          · rw [Nesting.read_plain hquote hopen hparen] at h
            exact (closing_of_nestingAfter? t h).plain hquote hopen hparen
termination_by t.length

/-- **Balanced texts.** A text is balanced when a reader that refuses a parenthesis which closes
nothing comes out of it at the top. -/
theorem balanced_iff : Balanced t ↔ nestingAfter? .top t = some .top := by
  constructor
  · intro h
    have hread := h.nestingAfter?_append 0 []
    rwa [List.append_nil] at hread
  · intro h
    cases closing_of_nestingAfter? t h with
    | balanced h => exact h

instance (t : Text) : Decidable (Balanced t) := decidable_of_iff _ balanced_iff.symm

/-- At its top level a balanced text is cut into balanced texts. -/
theorem balanced_append_iff (hu : Outline.nestingAfter .top u = .top) :
    Balanced (u ++ v) ↔ Balanced u ∧ Balanced v := by
  simp only [balanced_iff, Outline.nestingAfter?_append, Option.bind_eq_some_iff]
  constructor
  · rintro ⟨m, hm, hv⟩
    obtain rfl : Nesting.top = m := hu.symm.trans (nestingAfter_of_nestingAfter? hm)
    exact ⟨hm, hv⟩
  · exact fun ⟨hu, hv⟩ => ⟨.top, hu, hv⟩

/-! ## Ends that do not matter -/

/-- A character that neither opens nor closes anything. -/
def isIdle (c : Char) : Bool := !(Text.quoteMarks ++ ['(', ')']).contains c

theorem not_mem_quoteMarks_of_isIdle {c : Char} (h : isIdle c = true) : c ∉ Text.quoteMarks := by
  intro hc
  simp [isIdle, hc] at h

theorem Nesting.read_of_isIdle {n : Nesting} (hn : Text.IsClosing n.closing) {c : Char}
    (h : isIdle c = true) : n.read c = n := by
  obtain ⟨d, q⟩ := n
  have hmarks := not_mem_quoteMarks_of_isIdle h
  cases q with
  | some e =>
    refine read_inside ?_
    rintro rfl
    exact hmarks (hn c rfl)
  | none =>
    obtain ⟨hsingle, hdouble, hback, hbracket, -, hopen, hclose⟩ : c ≠ '\'' ∧ c ≠ '"' ∧
        c ≠ '\x60' ∧ c ≠ '[' ∧ c ≠ ']' ∧ c ≠ '(' ∧ c ≠ ')' := by
      simpa [isIdle, Text.quoteMarks] using h
    exact read_plain (by simp [closerOf?, hsingle, hdouble, hback, hbracket]) hopen hclose

theorem isClosing_nestingAfter {n : Nesting} (hn : Text.IsClosing n.closing) (t : Text) :
    Text.IsClosing (nestingAfter n t).closing := by
  induction t generalizing n with
  | nil => exact hn
  | cons c t ih =>
    refine ih ?_
    rw [closing_read]
    exact hn.after c

theorem nestingAfter?_of_isIdle {n : Nesting} (hn : Text.IsClosing n.closing)
    (h : ∀ c ∈ t, isIdle c = true) : nestingAfter? n t = some n := by
  induction t with
  | nil => rfl
  | cons c t ih =>
    have hc := h c List.mem_cons_self
    have hclose : c ≠ ')' := by
      rintro rfl
      exact absurd hc (by decide)
    rw [nestingAfter?_cons fun hc => hclose hc.1, Nesting.read_of_isIdle hn hc,
      ih fun d hd => h d (List.mem_cons_of_mem c hd)]

/-- Idle characters in front of a text do not matter. -/
theorem balanced_idle_append (h : ∀ c ∈ u, isIdle c = true) : Balanced (u ++ t) ↔ Balanced t := by
  rw [balanced_iff, balanced_iff, Outline.nestingAfter?_append,
    nestingAfter?_of_isIdle Text.isClosing_none h, Option.bind_some]

/-- Idle characters behind a text do not matter. -/
theorem balanced_append_idle (h : ∀ c ∈ u, isIdle c = true) : Balanced (t ++ u) ↔ Balanced t := by
  rw [balanced_iff, balanced_iff, Outline.nestingAfter?_append]
  cases hread : nestingAfter? .top t with
  | none => simp
  | some m =>
    have hm : Text.IsClosing m.closing := by
      rw [← nestingAfter_of_nestingAfter? hread]
      exact isClosing_nestingAfter Text.isClosing_none t
    rw [Option.bind_some, nestingAfter?_of_isIdle hm h]

theorem isIdle_of {p : Char → Bool} (hp : ((Text.quoteMarks ++ ['(', ')']).any p) = false)
    {c : Char} (h : p c = true) : isIdle c = true := by
  by_contra hc
  simp only [isIdle, Bool.not_eq_true', Bool.not_eq_false, List.contains_iff_mem] at hc
  exact List.any_eq_false.1 hp c hc h

theorem isIdle_of_isBlank {c : Char} (h : isBlank c = true) : isIdle c = true :=
  isIdle_of (by decide) h

theorem isIdle_of_isIdentifierChar {c : Char} (h : isIdentifierChar c = true) :
    isIdle c = true :=
  isIdle_of (by decide) h

theorem balanced_dropEnd {p : Char → Bool} (hp : ∀ c, p c = true → isIdle c = true) :
    Balanced (Text.dropEnd p t) ↔ Balanced t := by
  obtain ⟨e, he, hall⟩ := Text.dropEnd_append_ending p t
  conv_rhs => rw [he]
  exact (balanced_append_idle fun c hc => hp c (hall c hc)).symm

/-- Blanks around a text do not matter. -/
theorem balanced_trim : Balanced (Text.trim t) ↔ Balanced t := by
  rw [Text.trim, Text.trimEnd, balanced_dropEnd fun _ => isIdle_of_isBlank, Text.trimStart]
  conv_rhs => rw [← List.takeWhile_append_dropWhile (p := isBlank) (l := t)]
  exact (balanced_idle_append fun c hc =>
    isIdle_of_isBlank (List.all_eq_true.1 List.all_takeWhile c hc)).symm

/-- What stands around a statement does not matter. -/
theorem balanced_bodyOf {sql : Text} : Balanced (bodyOf sql) ↔ Balanced sql := by
  have hsemicolon : ∀ c, (c == ';') = true → isIdle c = true := by
    intro c hc
    obtain rfl := eq_of_beq hc
    decide
  rw [bodyOf, Text.trimEnd, balanced_dropEnd fun _ => isIdle_of_isBlank,
    balanced_dropEnd hsemicolon, balanced_trim]

end SqlScribe
