import SqlScribe.Clause.Scan
import SqlScribe.Proofs.Text.Words

/-!
# Literals

The literals of a text are its quotations in single quotes, as the scanner reads them: a
single quote inside another quotation opens none. `Text.literals` lists what they say, and
`Text.muteFrom` blanks it out, one space for each character. Main statements:

* `Text.muteFrom_append`, `Text.literalsFrom_append`: both go on from part to part;
* `Text.exists_literal`: what stands around a place inside a literal;
* `Text.collapse_closed`: collapsing a text squeezes its literals.
-/

namespace SqlScribe

/-- The character that closes the quotation a text goes on in behind `c`, if it is in one. -/
def closingAfter (q : Option Char) (c : Char) : Option Char := (Nesting.read ⟨0, q⟩ c).closing

/-- Parentheses do not matter to quotations. -/
theorem closing_read (n : Nesting) (c : Char) : (n.read c).closing = closingAfter n.closing c := by
  obtain ⟨d, q⟩ := n
  cases q with
  | some e =>
    simp only [closingAfter, Nesting.read]
    split <;> rfl
  | none =>
    simp only [closingAfter, Nesting.read]
    repeat' split
    all_goals rfl

/-- Characters other than parentheses do not change the depth. -/
theorem Nesting.read_of_ne {c : Char} (hopen : c ≠ '(') (hclose : c ≠ ')') (d : Nat)
    (q : Option Char) : Nesting.read ⟨d, q⟩ c = ⟨d, closingAfter q c⟩ := by
  have hdepth : (Nesting.read ⟨d, q⟩ c).depth = d := by
    unfold Nesting.read
    simp only [beq_iff_eq, if_neg hopen, if_neg hclose]
    repeat' split
    all_goals rfl
  have hclosing := closing_read ⟨d, q⟩ c
  cases hread : Nesting.read ⟨d, q⟩ c with
  | mk depth closing =>
    rw [hread] at hdepth hclosing
    rw [← hdepth, ← hclosing]

theorem closingAfter_quote : closingAfter none '\'' = some '\'' := rfl

/-- A quotation goes on up to the character that closes it. -/
theorem closingAfter_some (e c : Char) :
    closingAfter (some e) c = if c = e then none else some e := by
  simp only [closingAfter, Nesting.read, beq_iff_eq]
  split <;> rfl

/-- A literal goes on inside of it, and begins at a single quote outside of quotations. -/
theorem closingAfter_eq_quote_iff {q : Option Char} {c : Char} :
    closingAfter q c = some '\'' ↔ (q = some '\'' ∧ c ≠ '\'') ∨ (q = none ∧ c = '\'') := by
  cases q with
  | some e =>
    rw [closingAfter_some]
    by_cases hc : c = e
    · subst hc
      simp only [if_true, reduceCtorEq, Option.some.injEq, false_and, or_false, false_iff, not_and,
        not_not]
      exact fun h => h
    · rw [if_neg hc]
      simp only [Option.some.injEq, reduceCtorEq, false_and, or_false]
      constructor
      · rintro rfl
        exact ⟨rfl, hc⟩
      · exact fun h => h.1
  | none =>
    simp only [reduceCtorEq, false_and, true_and, false_or]
    constructor
    · intro h
      by_contra hc
      unfold closingAfter Nesting.read at h
      simp only at h
      repeat' split at h
      all_goals simp_all
    · rintro rfl
      rfl

namespace Text

/-- The character that closes the quotation a text ends in, when it begins in one closed by
`q`. -/
def closingAt (q : Option Char) (t : Text) : Option Char := t.foldl closingAfter q

/-- All quotations of the text are closed. -/
def Closed (t : Text) : Prop := closingAt none t = none

instance (t : Text) : Decidable (Closed t) := inferInstanceAs (Decidable (_ = _))

/-- The text with what its literals say blanked out, beginning in a quotation closed by `q`. -/
def muteFrom (q : Option Char) : Text → Text
  | [] => []
  | c :: t => (if q = some '\'' ∧ c ≠ '\'' then ' ' else c) :: muteFrom (closingAfter q c) t

/-- The text with what its literals say blanked out. -/
def mute (t : Text) : Text := muteFrom none t

/-- The character in front of the first text. -/
def prepend (c : Char) : List Text → List Text
  | [] => [[c]]
  | w :: ws => (c :: w) :: ws

/-- What the literals of a text say, in order; the text begins in a quotation closed by `q`,
and if that is a literal, the rest of it comes first. -/
def literalsFrom (q : Option Char) : Text → List Text
  | [] => []
  | c :: t =>
      if q = some '\'' then
        if c = '\'' then [] :: literalsFrom none t else prepend c (literalsFrom q t)
      else literalsFrom (closingAfter q c) t

/-- What the literals of a text say, in order. -/
def literals (t : Text) : List Text := literalsFrom none t

/-! ## From part to part -/

theorem closingAt_append (q : Option Char) (a b : Text) :
    closingAt q (a ++ b) = closingAt (closingAt q a) b :=
  List.foldl_append

theorem muteFrom_append (q : Option Char) (a b : Text) :
    muteFrom q (a ++ b) = muteFrom q a ++ muteFrom (closingAt q a) b := by
  induction a generalizing q with
  | nil => rfl
  | cons c a ih => rw [List.cons_append, muteFrom, ih, muteFrom]; rfl

theorem length_muteFrom (q : Option Char) (t : Text) : (muteFrom q t).length = t.length := by
  induction t generalizing q with
  | nil => rfl
  | cons c t ih => rw [muteFrom, List.length_cons, List.length_cons, ih]

/-- Outside of literals a character stays. -/
theorem muteFrom_cons {q : Option Char} (hq : q ≠ some '\'') (c : Char) (t : Text) :
    muteFrom q (c :: t) = c :: muteFrom (closingAfter q c) t := by
  rw [muteFrom, if_neg fun h => hq h.1]

theorem muteFrom_inside {c : Char} (hc : c ≠ '\'') (t : Text) :
    muteFrom (some '\'') (c :: t) = ' ' :: muteFrom (some '\'') t := by
  rw [muteFrom, if_pos ⟨rfl, hc⟩, closingAfter_some, if_neg hc]

theorem muteFrom_closing (t : Text) :
    muteFrom (some '\'') ('\'' :: t) = '\'' :: muteFrom none t := by
  rw [muteFrom, if_neg fun h => h.2 rfl, closingAfter_some, if_pos rfl]

theorem literalsFrom_inside {c : Char} (hc : c ≠ '\'') (t : Text) :
    literalsFrom (some '\'') (c :: t) = prepend c (literalsFrom (some '\'') t) := by
  rw [literalsFrom, if_pos rfl, if_neg hc]

theorem literalsFrom_closing (t : Text) :
    literalsFrom (some '\'') ('\'' :: t) = [] :: literalsFrom none t := by
  rw [literalsFrom, if_pos rfl, if_pos rfl]

theorem literalsFrom_outside {q : Option Char} (hq : q ≠ some '\'') (c : Char) (t : Text) :
    literalsFrom q (c :: t) = literalsFrom (closingAfter q c) t := by
  rw [literalsFrom, if_neg hq]

theorem prepend_ne_nil (c : Char) (ws : List Text) : prepend c ws ≠ [] := by
  cases ws <;> exact List.cons_ne_nil _ _

theorem prepend_append {ws : List Text} (h : ws ≠ []) (c : Char) (us : List Text) :
    prepend c (ws ++ us) = prepend c ws ++ us := by
  obtain ⟨w, ws, rfl⟩ := List.exists_cons_of_ne_nil h
  rfl

/-- A text that a character is put in front of, or one behind it. -/
theorem mem_prepend {c : Char} {ws : List Text} {u : Text} (h : u ∈ prepend c ws) :
    (∃ v, u = c :: v ∧ (v = [] ∨ v ∈ ws)) ∨ u ∈ ws := by
  cases ws with
  | nil => exact Or.inl ⟨[], List.mem_singleton.1 h, Or.inl rfl⟩
  | cons w ws =>
    rcases List.mem_cons.1 h with rfl | h
    · exact Or.inl ⟨w, rfl, Or.inr List.mem_cons_self⟩
    · exact Or.inr (List.mem_cons_of_mem w h)

theorem mem_prepend_of_mem {c : Char} {ws : List Text} {u : Text} (h : u ∈ ws) :
    u ∈ prepend c ws ∨ c :: u ∈ prepend c ws := by
  cases ws with
  | nil => exact absurd h List.not_mem_nil
  | cons w ws =>
    rcases List.mem_cons.1 h with rfl | h
    · exact Or.inr List.mem_cons_self
    · exact Or.inl (List.mem_cons_of_mem _ h)

theorem exists_mem_prepend (c : Char) (ws : List Text) : ∃ u, c :: u ∈ prepend c ws := by
  cases ws with
  | nil => exact ⟨[], List.mem_cons_self⟩
  | cons w ws => exact ⟨w, List.mem_cons_self⟩

/-- A literal that is closed is one of the literals. -/
theorem literalsFrom_ne_nil {t : Text} (h : closingAt (some '\'') t ≠ some '\'') :
    literalsFrom (some '\'') t ≠ [] := by
  cases t with
  | nil => exact absurd rfl h
  | cons c t =>
    by_cases hc : c = '\''
    · subst hc
      rw [literalsFrom_closing]
      exact List.cons_ne_nil _ _
    · rw [literalsFrom_inside hc]
      exact prepend_ne_nil c _

/-- No literal holds the quote that would end it. -/
theorem not_mem_of_mem_literalsFrom {q : Option Char} {t w : Text} (h : w ∈ literalsFrom q t) :
    '\'' ∉ w := by
  induction t generalizing q w with
  | nil => exact absurd h List.not_mem_nil
  | cons c t ih =>
    by_cases hq : q = some '\''
    · subst hq
      by_cases hc : c = '\''
      · subst hc
        rw [literalsFrom_closing] at h
        rcases List.mem_cons.1 h with rfl | h
        · exact List.not_mem_nil
        · exact ih h
      · rw [literalsFrom_inside hc] at h
        rcases mem_prepend h with ⟨v, rfl, hv⟩ | h
        · rw [List.mem_cons, not_or]
          refine ⟨fun h => hc h.symm, ?_⟩
          rcases hv with rfl | hv
          · exact List.not_mem_nil
          · exact ih hv
        · exact ih h
    · rw [literalsFrom_outside hq] at h
      exact ih h

/-- Behind a part that is closed the literals of the rest follow. -/
theorem literalsFrom_append {q : Option Char} {a : Text} (h : closingAt q a = none) (b : Text) :
    literalsFrom q (a ++ b) = literalsFrom q a ++ literalsFrom none b := by
  induction a generalizing q with
  | nil =>
    obtain rfl : q = none := h
    rfl
  | cons c a ih =>
    have hnext : closingAt (closingAfter q c) a = none := h
    by_cases hq : q = some '\''
    · subst hq
      by_cases hc : c = '\''
      · subst hc
        have hrest := ih (q := none) (by rwa [closingAfter_some, if_pos rfl] at hnext)
        rw [List.cons_append, literalsFrom_closing, literalsFrom_closing, hrest]
        rfl
      · rw [closingAfter_some, if_neg hc] at hnext
        have hrest := ih hnext
        rw [List.cons_append, literalsFrom_inside hc, literalsFrom_inside hc, hrest,
          prepend_append (literalsFrom_ne_nil (by rw [hnext]; simp))]
    · rw [List.cons_append, literalsFrom_outside hq, literalsFrom_outside hq, ih hnext]

/-! ## Around a place in a literal -/

/-- A place in a literal has a single quote in front of it that opened the literal. -/
theorem exists_opening {v : Text} (h : closingAt none v = some '\'') :
    ∃ a w, v = a ++ '\'' :: w ∧ closingAt none a = none ∧ '\'' ∉ w := by
  induction v using List.reverseRecOn with
  | nil => exact absurd h (by simp [closingAt])
  | append_singleton v c ih =>
    rw [closingAt_append] at h
    rcases closingAfter_eq_quote_iff.1 h with ⟨hq, hc⟩ | ⟨hq, rfl⟩
    · obtain ⟨a, w, rfl, ha, hw⟩ := ih hq
      refine ⟨a, w ++ [c], by simp, ha, ?_⟩
      rw [List.mem_append, List.mem_singleton, not_or]
      exact ⟨hw, fun h => hc h.symm⟩
    · exact ⟨v, [], rfl, hq, List.not_mem_nil⟩

/-- A literal that is closed goes on up to a single quote. -/
theorem exists_closing {w : Text} (h : closingAt (some '\'') w ≠ some '\'') :
    ∃ u s, w = u ++ '\'' :: s ∧ '\'' ∉ u := by
  induction w with
  | nil => exact absurd rfl h
  | cons c w ih =>
    by_cases hc : c = '\''
    · subst hc
      exact ⟨[], w, rfl, List.not_mem_nil⟩
    · have hnext : closingAt (closingAfter (some '\'') c) w ≠ some '\'' := h
      rw [closingAfter_some, if_neg hc] at hnext
      obtain ⟨u, s, rfl, hu⟩ := ih hnext
      refine ⟨c :: u, s, rfl, ?_⟩
      rw [List.mem_cons, not_or]
      exact ⟨fun h => hc h.symm, hu⟩

theorem literalsFrom_content {u : Text} (hu : '\'' ∉ u) (s : Text) :
    literalsFrom (some '\'') (u ++ '\'' :: s) = u :: literalsFrom none s := by
  induction u with
  | nil => exact literalsFrom_closing s
  | cons c u ih =>
    rw [List.mem_cons, not_or] at hu
    rw [List.cons_append, literalsFrom_inside fun h => hu.1 h.symm, ih hu.2]
    rfl

/-- A literal as it is written. -/
def quote (w : Text) : Text := '\'' :: (w ++ ['\''])

/-- Around a place inside a literal stands the literal. -/
theorem exists_literal {v w : Text} (hclosed : Closed (v ++ w))
    (h : closingAt none v = some '\'') :
    ∃ a x y s, v = a ++ '\'' :: x ∧ w = y ++ '\'' :: s ∧ '\'' ∉ x ∧ '\'' ∉ y ∧
      x ++ y ∈ literals (v ++ w) := by
  obtain ⟨a, x, rfl, ha, hx⟩ := exists_opening h
  have hrest : closingAt (some '\'') w = none := by
    rw [Closed, closingAt_append, h] at hclosed
    exact hclosed
  obtain ⟨y, s, rfl, hy⟩ := exists_closing (w := w) (by rw [hrest]; simp)
  refine ⟨a, x, y, s, rfl, rfl, hx, hy, ?_⟩
  have hxy : '\'' ∉ x ++ y := by
    rw [List.mem_append, not_or]
    exact ⟨hx, hy⟩
  have happ : a ++ '\'' :: x ++ (y ++ '\'' :: s) = a ++ '\'' :: (x ++ y ++ '\'' :: s) := by
    simp only [List.append_assoc, List.cons_append]
  rw [literals, happ, literalsFrom_append ha, literalsFrom_outside (by simp), closingAfter_quote,
    literalsFrom_content hxy]
  exact List.mem_append_right _ List.mem_cons_self

/-! ## Characters that open and close nothing -/

/-- The characters that open or close a quotation. -/
def quoteMarks : List Char := ['\'', '"', '\x60', '[', ']']

/-- What may close a quotation. -/
def IsClosing (q : Option Char) : Prop := ∀ e, q = some e → e ∈ quoteMarks

theorem isClosing_none : IsClosing none := fun _ h => absurd h (by simp)

theorem IsClosing.after {q : Option Char} (h : IsClosing q) (c : Char) :
    IsClosing (closingAfter q c) := by
  intro e he
  cases q with
  | some e' =>
    rw [closingAfter_some] at he
    split at he
    · exact absurd he (by simp)
    · exact h e he
  | none =>
    unfold closingAfter Nesting.read at he
    simp only [Bool.or_eq_true, beq_iff_eq] at he
    split at he
    · next hc =>
      obtain rfl := Option.some.inj he
      rcases hc with (rfl | rfl) | rfl <;> decide
    · split at he
      · obtain rfl := Option.some.inj he
        decide
      · split at he
        · exact absurd he (by simp)
        · split at he <;> exact absurd he (by simp)

theorem closingAfter_of_not_mem {q : Option Char} (hq : IsClosing q) {c : Char}
    (hc : c ∉ quoteMarks) : closingAfter q c = q := by
  cases q with
  | some e =>
    rw [closingAfter_some, if_neg]
    rintro rfl
    exact hc (hq c rfl)
  | none =>
    simp only [quoteMarks, List.mem_cons, List.not_mem_nil, or_false, not_or] at hc
    unfold closingAfter Nesting.read
    simp only [beq_iff_eq, hc, Bool.or_self, Bool.false_eq_true, if_false, beq_eq_false_iff_ne.2,
      ne_eq, not_false_iff]
    split
    · rfl
    · split <;> rfl

theorem closingAt_of_not_mem {q : Option Char} (hq : IsClosing q) {t : Text}
    (ht : ∀ c ∈ t, c ∉ quoteMarks) : closingAt q t = q := by
  induction t with
  | nil => rfl
  | cons c t ih =>
    have hc := closingAfter_of_not_mem hq (ht c List.mem_cons_self)
    have hrest := ih fun d hd => ht d (List.mem_cons_of_mem c hd)
    show closingAt (closingAfter q c) t = q
    rw [hc, hrest]

theorem muteFrom_none_of_not_mem {t : Text} (ht : ∀ c ∈ t, c ∉ quoteMarks) :
    muteFrom none t = t := by
  induction t with
  | nil => rfl
  | cons c t ih =>
    rw [muteFrom_cons (by simp), closingAfter_of_not_mem isClosing_none (ht c List.mem_cons_self),
      ih fun d hd => ht d (List.mem_cons_of_mem c hd)]

theorem literals_of_not_mem {t : Text} (ht : ∀ c ∈ t, c ∉ quoteMarks) : literals t = [] := by
  rw [literals]
  induction t with
  | nil => rfl
  | cons c t ih =>
    rw [literalsFrom_outside (by simp),
      closingAfter_of_not_mem isClosing_none (ht c List.mem_cons_self),
      ih fun d hd => ht d (List.mem_cons_of_mem c hd)]

theorem not_mem_quoteMarks_of_isBlank {c : Char} (h : isBlank c = true) : c ∉ quoteMarks := by
  intro hc
  have hall : (quoteMarks.all fun x => !isBlank x) = true := by decide
  exact absurd (List.all_eq_true.1 hall c hc) (by simp [h])

/-! ## Cutting off ends -/

/-- The last character of a text that does not end in a literal is not blanked out. -/
theorem getLast?_muteFrom {q : Option Char} {t : Text} (h : closingAt q t ≠ some '\'') :
    (muteFrom q t).getLast? = t.getLast? := by
  rcases List.eq_nil_or_concat t with rfl | ⟨u, c, rfl⟩
  · rfl
  · rw [List.concat_eq_append] at h ⊢
    rw [closingAt_append] at h
    have hkeep : ¬ (closingAt q u = some '\'' ∧ c ≠ '\'') :=
      fun hin => h (closingAfter_eq_quote_iff.2 (Or.inl hin))
    rw [muteFrom_append, muteFrom, if_neg hkeep, muteFrom, List.getLast?_concat,
      List.getLast?_concat]

/-- What an ending outside of quotations is dropped from keeps its literals. -/
theorem dropEnd_closed {p : Char → Bool} (hp : ∀ c, p c = true → c ∉ quoteMarks) {t : Text}
    (h : Closed t) :
    Closed (dropEnd p t) ∧ dropEnd p (mute t) = mute (dropEnd p t) ∧
      literals (dropEnd p t) = literals t := by
  obtain ⟨e, he, hall⟩ := dropEnd_append_ending p t
  have hplain : ∀ c ∈ e, c ∉ quoteMarks := fun c hc => hp c (hall c hc)
  have hclosing : IsClosing (closingAt none (dropEnd p t)) := by
    have hfold : ∀ (q : Option Char) (u : Text), IsClosing q → IsClosing (closingAt q u) := by
      intro q u hq
      induction u generalizing q with
      | nil => exact hq
      | cons c u ih => exact ih _ (hq.after c)
    exact hfold none _ isClosing_none
  have hfront : Closed (dropEnd p t) := by
    rw [Closed, he, closingAt_append, closingAt_of_not_mem hclosing hplain] at h
    exact h
  have hmute : mute t = mute (dropEnd p t) ++ e := by
    conv_lhs => rw [he, mute, muteFrom_append, hfront, muteFrom_none_of_not_mem hplain]
    rfl
  refine ⟨hfront, ?_, ?_⟩
  · rw [hmute]
    refine dropEnd_append (fun c hc => ?_) hall
    rw [mute, getLast?_muteFrom (by rw [hfront]; simp)] at hc
    exact getLast?_dropEnd hc
  · have hnone := literals_of_not_mem hplain
    conv_rhs => rw [he, literals, literalsFrom_append hfront]
    rw [literals] at hnone ⊢
    rw [hnone, List.append_nil]

/-- Dropping the blanks in front and blanking out literals may be done in either order. -/
theorem dropWhile_isBlank_muteFrom (t : Text) :
    (muteFrom none t).dropWhile isBlank = muteFrom none (t.dropWhile isBlank) := by
  induction t with
  | nil => rfl
  | cons c t ih =>
    rw [muteFrom_cons (by simp)]
    by_cases hc : isBlank c = true
    · rw [closingAfter_of_not_mem isClosing_none (not_mem_quoteMarks_of_isBlank hc),
        List.dropWhile_cons_of_pos hc, List.dropWhile_cons_of_pos hc, ih]
    · rw [List.dropWhile_cons_of_neg hc, List.dropWhile_cons_of_neg hc, muteFrom_cons (by simp)]

/-- What blanks in front are dropped from keeps its literals. -/
theorem trimStart_closed {t : Text} (h : Closed t) :
    Closed (trimStart t) ∧ literals (trimStart t) = literals t := by
  rw [trimStart]
  induction t with
  | nil => exact ⟨h, rfl⟩
  | cons c t ih =>
    by_cases hc : isBlank c = true
    · have hafter := closingAfter_of_not_mem isClosing_none (not_mem_quoteMarks_of_isBlank hc)
      have hrest : Closed t := by
        have hnext : closingAt (closingAfter none c) t = none := h
        rwa [hafter] at hnext
      obtain ⟨hclosed, hliterals⟩ := ih hrest
      rw [List.dropWhile_cons_of_pos hc]
      refine ⟨hclosed, hliterals.trans ?_⟩
      rw [literals, literals, literalsFrom_outside (by simp), hafter]
    · rw [List.dropWhile_cons_of_neg hc]
      exact ⟨h, rfl⟩

theorem trim_closed {t : Text} (h : Closed t) :
    Closed (trim t) ∧ trim (mute t) = mute (trim t) ∧ literals (trim t) = literals t := by
  obtain ⟨hclosed, hliterals⟩ := trimStart_closed h
  obtain ⟨hclosed', hmute, hliterals'⟩ :=
    dropEnd_closed (fun c hc => not_mem_quoteMarks_of_isBlank hc) hclosed
  have hstart : trimStart (mute t) = mute (trimStart t) := dropWhile_isBlank_muteFrom t
  exact ⟨hclosed', by rw [trim, trimEnd, hstart, hmute]; rfl, hliterals'.trans hliterals⟩

/-! ## Layout -/

/-- Whether the first of some texts begins with a blank. -/
def startsBlank (ws : List Text) : Bool := (ws.head?.bind List.head?).any isBlank

theorem startsBlank_literalsFrom (t : Text) :
    startsBlank (literalsFrom (some '\'') t) = t.head?.any isBlank := by
  cases t with
  | nil => rfl
  | cons c t =>
    by_cases hc : c = '\''
    · subst hc
      have hquote : isBlank '\'' = false := by decide
      simp [literalsFrom_closing, startsBlank, hquote]
    · rw [literalsFrom_inside hc]
      cases literalsFrom (some '\'') t <;> rfl

theorem map_squeeze_prepend (c : Char) (ws : List Text) :
    (prepend c ws).map squeeze =
      if isBlank c then
        if startsBlank ws then ws.map squeeze else prepend ' ' (ws.map squeeze)
      else prepend c (ws.map squeeze) := by
  cases ws with
  | nil =>
    by_cases hc : isBlank c = true
    · simp [prepend, squeeze, startsBlank, hc]
    · simp [prepend, squeeze, hc]
  | cons w ws =>
    have hfirst : startsBlank (w :: ws) = w.head?.any isBlank := rfl
    rw [prepend, List.map_cons, squeeze, hfirst]
    split
    · split
      · rfl
      · rfl
    · rfl

/-- Squeezing a text squeezes its literals. -/
theorem literalsFrom_squeeze {q : Option Char} (hq : IsClosing q) (t : Text) :
    literalsFrom q (squeeze t) = (literalsFrom q t).map squeeze := by
  induction t generalizing q with
  | nil => rfl
  | cons c t ih =>
    have hblank : ∀ x, isBlank x = true → x ≠ '\'' ∧ closingAfter q x = q := fun x hx =>
      have hmark := not_mem_quoteMarks_of_isBlank hx
      ⟨fun h => hmark (h ▸ by decide), closingAfter_of_not_mem hq hmark⟩
    have hspace := hblank ' ' (by decide)
    by_cases hin : q = some '\''
    · subst hin
      by_cases hquote : c = '\''
      · subst hquote
        rw [squeeze, if_neg (by decide), literalsFrom_closing, literalsFrom_closing,
          ih isClosing_none]
        rfl
      · -- what is in a literal is squeezed as the text is
        rw [literalsFrom_inside hquote, map_squeeze_prepend, startsBlank_literalsFrom, ← ih hq,
          squeeze]
        split
        · split
          · rfl
          · rw [literalsFrom_inside hspace.1]
        · rw [literalsFrom_inside hquote]
    · rw [literalsFrom_outside hin, squeeze]
      split
      · next hc =>
        rw [(hblank c hc).2]
        split
        · exact ih hq
        · rw [literalsFrom_outside hin, hspace.2, ih hq]
      · rw [literalsFrom_outside hin, ih (hq.after c)]

theorem closingAt_squeeze {q : Option Char} (hq : IsClosing q) (t : Text) :
    closingAt q (squeeze t) = closingAt q t := by
  induction t generalizing q with
  | nil => rfl
  | cons c t ih =>
    have hcons : closingAt q (c :: t) = closingAt (closingAfter q c) t := rfl
    rw [squeeze, hcons]
    split
    · next hc =>
      rw [closingAfter_of_not_mem hq (not_mem_quoteMarks_of_isBlank hc)]
      split
      · exact ih hq
      · have hspace : closingAt q (' ' :: squeeze t)
            = closingAt (closingAfter q ' ') (squeeze t) := rfl
        rw [hspace, closingAfter_of_not_mem hq (by decide)]
        exact ih hq
    · exact ih (hq.after c)

/-- Collapsing a closed text squeezes its literals. -/
theorem collapse_closed {t : Text} (h : Closed t) :
    Closed (collapse t) ∧ literals (collapse t) = (literals t).map squeeze := by
  have hsqueeze : Closed (squeeze t) := (closingAt_squeeze isClosing_none t).trans h
  obtain ⟨hclosed, -, hliterals⟩ := trim_closed hsqueeze
  rw [collapse_eq_trim_squeeze, hliterals]
  exact ⟨hclosed, literalsFrom_squeeze isClosing_none t⟩

end Text

end SqlScribe
