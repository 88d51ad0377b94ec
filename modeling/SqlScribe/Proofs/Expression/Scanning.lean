import SqlScribe.Proofs.Clause.Reading
import SqlScribe.Proofs.Expression.Calls

/-!
# Expressions under the scanner

A written expression is read over as part of the body it stands in. Between parentheses no clause
opens whatever stands there, so of a call only the name matters. Main statements:

* `sheltered_write`: inside of parentheses an expression is read over as a whole;
* `inert_write`: so it is outside of them, if its name, or the text it is, opens no clause;
* `scan_selecting`: the two clauses of a statement that selects an expression from a table.
-/

namespace SqlScribe

open SqlScribe.Expr

namespace Outline

/-! ## Texts in parentheses -/

/-- A text that is read over as part of any body, when a parenthesis is open. -/
def Sheltered (t : Text) : Prop :=
  ∀ (k : ClauseKind) (d : Nat) (before : Option Char) (rest : Text),
    split k ⟨d + 1, none⟩ before 0 (t ++ rest) =
      putFront t (split k ⟨d + 1, none⟩ (lastOf before t) 0 rest)

/-- Inside of parentheses no clause opens at a character. -/
theorem split_cons_of_depth {k : ClauseKind} {n : Nesting} {before : Option Char} {c : Char}
    {t : Text} (h : (n.read c).depth ≠ 0) :
    split k n before 0 (c :: t) = putFront [c] (split k (n.read c) (some c) 0 t) := by
  refine split_cons fun htop _ => absurd htop ?_
  simp [Nesting.isTop, h]

theorem split_of_noParen {t : Text} (ht : ∀ c ∈ t, c ≠ '(' ∧ c ≠ ')') (k : ClauseKind) (d : Nat)
    (q before : Option Char) (rest : Text) : split k ⟨d + 1, q⟩ before 0 (t ++ rest) =
      putFront t (split k ⟨d + 1, Text.closingAt q t⟩ (lastOf before t) 0 rest) := by
  induction t generalizing q before with
  | nil => rfl
  | cons c t ih =>
    obtain ⟨hopen, hclose⟩ := ht c List.mem_cons_self
    have hread := Nesting.read_of_ne hopen hclose (d + 1) q
    rw [List.cons_append, split_cons_of_depth (by rw [hread]; exact Nat.succ_ne_zero d), hread,
      ih (fun x hx => ht x (List.mem_cons_of_mem c hx)), lastOf_cons]
    rfl

theorem sheltered_of_closed {t : Text} (ht : ∀ c ∈ t, c ≠ '(' ∧ c ≠ ')') (hclosed : Text.Closed t) :
    Sheltered t := by
  intro k d before rest
  rw [split_of_noParen ht, hclosed]

theorem Sheltered.append {t u : Text} (ht : Sheltered t) (hu : Sheltered u) :
    Sheltered (t ++ u) := by
  intro k d before rest
  rw [List.append_assoc, ht, hu, ← putFront_append]
  simp only [lastOf, List.getLast?_append, Option.or_assoc]

theorem Sheltered.join {s : Text} (hs : Sheltered s) {ts : List Text} (h : ∀ t ∈ ts, Sheltered t) :
    Sheltered (Text.join s ts) := by
  induction ts with
  | nil => exact fun _ _ _ _ => rfl
  | cons t ts ih =>
    have ht := h t List.mem_cons_self
    by_cases hnil : ts = []
    · subst hnil
      exact ht
    · rw [Text.join_cons _ _ hnil]
      exact (ht.append hs).append (ih fun u hu => h u (List.mem_cons_of_mem t hu))

/-- What stands in parentheses is read over from the parenthesis that opens them to the one that
closes them. -/
theorem Sheltered.split_parens {t : Text} (ht : Sheltered t) (k : ClauseKind) (d : Nat)
    (before : Option Char) (rest : Text) :
    split k ⟨d, none⟩ before 0 ('(' :: (t ++ [')']) ++ rest) =
      putFront ('(' :: (t ++ [')'])) (split k ⟨d, none⟩ (some ')') 0 rest) := by
  have hopen : Nesting.read ⟨d, none⟩ '(' = ⟨d + 1, none⟩ := rfl
  have hclose : split k ⟨d + 1, none⟩ (lastOf (some '(') t) 0 (')' :: rest) =
      putFront [')'] (split k ⟨d, none⟩ (some ')') 0 rest) :=
    split_cons fun _ _ => opens?_eq_none_of_sign rest (by decide)
  rw [List.cons_append, List.append_assoc, List.singleton_append,
    split_cons_of_depth (by rw [hopen]; exact Nat.succ_ne_zero d), hopen, ht, hclose,
    ← putFront_append, ← putFront_append]
  rfl

theorem Sheltered.parens {t : Text} (ht : Sheltered t) : Sheltered ('(' :: (t ++ [')'])) := by
  intro k d before rest
  rw [ht.split_parens, lastOf, ← List.cons_append, List.getLast?_concat]
  rfl

theorem Sheltered.inert_parens {t : Text} (ht : Sheltered t) : Inert ('(' :: (t ++ [')'])) := by
  refine ⟨List.cons_ne_nil _ _, fun k before rest _ => ?_⟩
  have hsplit := ht.split_parens k 0 before rest
  rw [← List.cons_append, List.getLast?_concat]
  exact hsplit

/-! ## Written expressions -/

theorem isIdentifierChar_of_isLabelChar {c : Char} (h : isLabelChar c = true) :
    isIdentifierChar c = true := by
  rw [isLabelChar, Bool.or_eq_true, beq_iff_eq] at h
  rcases h with h | rfl
  · exact isIdentifierChar_of_isAlpha h
  · decide

theorem sheltered_label {g : Text} (hg : ∀ c ∈ g, isLabelChar c = true) : Sheltered g := by
  have hnot : ∀ {x : Char}, isLabelChar x = false → x ∉ g := fun hx hmem =>
    absurd (hg _ hmem) (by simp [hx])
  refine sheltered_of_closed (fun c hc => ⟨?_, ?_⟩)
    (Text.closingAt_of_not_mem Text.isClosing_none fun c hc hmark => ?_)
  · rintro rfl
    exact hnot (by decide) hc
  · rintro rfl
    exact hnot (by decide) hc
  · have hmarks : Text.quoteMarks.all (fun c => !isLabelChar c) = true := by decide
    exact hnot (by simpa using List.all_eq_true.1 hmarks c hmark) hc

theorem sheltered_separator (name : Text) : Sheltered (separator name) := by
  rw [separator]
  split <;> exact sheltered_of_closed (by decide) (by decide)

theorem sheltered_write {e : Expr} (he : e.Formed) : Sheltered e.write := by
  induction he with
  | atom ht =>
    refine sheltered_of_closed (fun c hc => ?_) ht.closed
    have hmark := ht.marks c hc
    simp only [List.mem_cons, not_or] at hmark
    exact ⟨hmark.1, hmark.2.1⟩
  | @node g parts hg _ ih =>
    rw [write_node]
    refine (sheltered_label hg).append
      (Sheltered.parens ((sheltered_separator g).join fun t ht => ?_))
    obtain ⟨e, he, rfl⟩ := List.mem_map.1 ht
    exact ih e he

/-- No clause opens at the expression: not at the name of its call, and if it is a text, not in the
text. -/
def OpensNone : Expr → Prop
  | .atom t => Inert t
  | .node g _ => g.asciiUpper ∉ reservedWords

/-- An expression is read over as part of the body it stands in. -/
theorem inert_write {e : Expr} (he : e.Formed) (h : OpensNone e) : Inert e.write := by
  cases he with
  | atom => exact h
  | @node g parts hg hparts =>
    have hinner : Sheltered (Text.join (separator g) (parts.map write)) := by
      refine (sheltered_separator g).join fun t ht => ?_
      obtain ⟨e, he, rfl⟩ := List.mem_map.1 ht
      exact sheltered_write (hparts e he)
    rw [write_node]
    by_cases hne : g = []
    · subst hne
      exact hinner.inert_parens
    · have hid : ∀ c ∈ g, isIdentifierChar c = true := fun c hc =>
        isIdentifierChar_of_isLabelChar (hg c hc)
      refine (inert_run hne hid h).append hinner.inert_parens (.of_head fun c hc => ?_)
      exact Option.some.inj hc ▸ by decide

end Outline

/-! ## Statements that select an expression -/

namespace Expr

theorem write_ne_nil {e : Expr} (he : e.Formed) : e.write ≠ [] := by
  cases he with
  | atom ht => exact ht.ne_nil
  | node =>
    rw [write_node]
    simp

theorem head_write {e : Expr} (he : e.Formed) :
    ∀ c, e.write.head? = some c → isBlank c = false := by
  cases he with
  | atom ht => exact ht.head
  | @node g parts hg _ =>
    rw [write_node]
    cases g with
    | nil => exact fun c hc => Option.some.inj hc ▸ by decide
    | cons x g =>
      exact fun c hc => Option.some.inj hc ▸ isBlank_of_isLabelChar (hg x List.mem_cons_self)

theorem last_write {e : Expr} (he : e.Formed) :
    ∀ c, e.write.getLast? = some c → isBlank c = false := by
  cases he with
  | atom ht => exact ht.last
  | @node g parts _ _ =>
    rw [write_node, ← List.cons_append, ← List.append_assoc, List.getLast?_concat]
    exact fun c hc => Option.some.inj hc ▸ by decide

end Expr

/-- The statement that selects an expression from a table. -/
def selecting (b : Text) : Text := "SELECT " ++ b ++ " FROM t"

theorem selecting_eq (b : Text) : selecting b =
    ClauseKind.select.word ++ ' ' :: (b ++ ' ' :: (ClauseKind.from.word ++ ' ' :: ['t'])) := by
  have hselect : "SELECT ".toList = ClauseKind.select.word ++ [' '] := by decide
  have hfrom : " FROM t".toList = ' ' :: (ClauseKind.from.word ++ ' ' :: ['t']) := by decide
  rw [← hfrom, ← List.singleton_append, ← List.append_assoc, ← hselect, ← List.append_assoc]
  rfl

namespace Text

theorem trim_padded {t : Text} (hhead : ∀ c, t.head? = some c → isBlank c = false)
    (hlast : ∀ c, t.getLast? = some c → isBlank c = false) (hne : t ≠ []) :
    trim (' ' :: (t ++ [' '])) = t := by
  obtain ⟨c, t, rfl⟩ := List.exists_cons_of_ne_nil hne
  have hstart : trimStart (c :: t ++ [' ']) = c :: t ++ [' '] := by
    rw [trimStart, List.cons_append, List.dropWhile_cons_of_neg (by simp [hhead c rfl])]
  rw [trim_cons_space, trim, hstart, trimEnd, dropEnd_concat_of_pos (by decide),
    dropEnd_eq_self hlast]

end Text

namespace Outline

theorem getLast?_selecting (b : Text) : (selecting b).getLast? = some 't' := by
  have hconcat : selecting b =
      ClauseKind.select.word ++ ' ' :: (b ++ ' ' :: (ClauseKind.from.word ++ [' '])) ++ ['t'] := by
    rw [selecting_eq]
    simp
  rw [hconcat, List.getLast?_concat]

theorem trim_selecting (b : Text) : Text.trim (selecting b) = selecting b := by
  refine Text.trim_eq_self (fun c hc => ?_) fun c hc => ?_
  · rw [selecting_eq] at hc
    exact Option.some.inj hc ▸ by decide
  · rw [getLast?_selecting] at hc
    exact Option.some.inj hc ▸ by decide

/-- **The clauses of a selection.** -/
theorem scan_selecting {b : Text} (hb : Inert b) (hhead : ∀ c, b.head? = some c → isBlank c = false)
    (hlast : ∀ c, b.getLast? = some c → isBlank c = false) :
    scan (selecting b) = ⟨[⟨.select, b⟩, ⟨.from, ['t']⟩], false⟩ := by
  have hdrop : ∀ {p : Char → Bool}, p 't' = false → Text.dropEnd p (selecting b) = selecting b := by
    intro p hp
    refine Text.dropEnd_eq_self fun c hc => ?_
    rw [getLast?_selecting] at hc
    exact Option.some.inj hc ▸ hp
  have hbody : bodyOf (selecting b) = selecting b := by
    rw [bodyOf, trim_selecting, hdrop (by decide), Text.trimEnd, hdrop (by decide)]
  have hterm : Text.endsWith (selecting b) ";" = false := by
    have hne : (selecting b).reverse.head? = some 't' := by
      rw [List.head?_reverse, getLast?_selecting]
    obtain ⟨u, hu⟩ := List.head?_eq_some_iff.1 hne
    rw [Text.endsWith, hu]
    rfl
  have hinert : Inert ['t'] := inert_run (by decide) (by decide) (by decide)
  have hfrom : split .select .top b.getLast? 0 (' ' :: (ClauseKind.from.word ++ ' ' :: ['t'])) =
      ([' '], [⟨.from, ['t']⟩]) := by
    have hspace := inert_space.split_append .select b.getLast?
      (ClauseKind.from.word ++ ' ' :: ['t']) (.of_last fun c hc => Option.some.inj hc ▸ by decide)
    have hclause : split .select .top (some ' ') 0 (ClauseKind.from.word ++ ' ' :: (['t'] ++ [])) =
        ([], [⟨.from, ['t']⟩]) :=
      split_clause (by decide) (by decide) hinert (Text.Apart.nil _)
    rw [List.singleton_append, List.getLast?_singleton] at hspace
    exact hspace.trans (congrArg (putFront [' ']) hclause)
  have hselect : split .leading .top none 0 (selecting b) =
      ([], [⟨.select, b⟩, ⟨.from, ['t']⟩]) := by
    have hapart : Text.Apart b (' ' :: (ClauseKind.from.word ++ ' ' :: ['t'])) :=
      .of_head fun c hc => Option.some.inj hc ▸ by decide
    have hlt : ClauseKind.leading.rank < ClauseKind.select.rank := by decide
    rw [selecting_eq, split_clause hlt rfl hb hapart, hfrom, Text.trim_padded hhead hlast hb.ne_nil]
  rw [scan, hbody, trim_selecting, hterm, clausesOf, hselect]
  rfl

end Outline

end SqlScribe
