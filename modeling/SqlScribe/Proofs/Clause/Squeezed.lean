import SqlScribe.Proofs.Clause.Balance
import SqlScribe.Proofs.Clause.Muted
import SqlScribe.Proofs.Text.Squeeze

/-!
# The outline whatever the layout

How much room there is between words makes no difference to the clauses of a text, but for the room
in their bodies. A text and the squeezed text are cut side by side. Main statements:

* `Keyword.after?_squeeze`, `ClauseKind.length?_squeeze`: the same keywords are found;
* `Outline.split_squeeze`: the same clauses are cut;
* `Outline.scan_collapse`: the outline of a collapsed text is the squeezed outline of the text;
* `Outline.render_squeezed`: an outline is written as the squeezed one is.
-/

namespace SqlScribe

open Text

/-- The clause with every run of blanks in its body written as one space. -/
def Clause.squeezed (c : Clause) : Clause := ⟨c.kind, squeeze c.body⟩

/-- The outline with every run of blanks in the bodies written as one space. -/
def Outline.squeezed (o : Outline) : Outline := ⟨o.clauses.map Clause.squeezed, o.terminated⟩

/-! ## Keywords -/

namespace Keyword

/-- A word is found at the start of the squeezed text where it is at the start of the text. -/
theorem after?_squeeze {w : Text} (hw : ∀ e ∈ w, e = ' ' ∨ isBlank e = false) (t : Text) :
    after? w (squeeze t) = (after? w t).map squeeze := by
  induction w generalizing t with
  | nil => rfl
  | cons e w ih =>
    obtain ⟨he, hw⟩ := List.forall_mem_cons.1 hw
    cases laidOut t with
    | nil => rfl
    | @char c t hc _ =>
      rw [squeeze_cons_of_not_blank hc, after?, after?, hc]
      split
      · rfl
      · split
        · exact ih hw t
        · rfl
    | @run g t hne hg hhead _ =>
      obtain ⟨c, g, rfl⟩ := List.exists_cons_of_ne_nil hne
      obtain ⟨hc, hg'⟩ := List.forall_mem_cons.1 hg
      have hdrop : (g ++ t).dropWhile isBlank = t :=
        dropWhile_append_of_head hg' (not_blank_of_head hhead)
      have hdrop' : (squeeze t).dropWhile isBlank = squeeze t :=
        dropWhile_append_of_head (t := []) (by simp)
          (not_blank_of_head (t := squeeze t) (by rwa [head?_squeeze_any]))
      rw [squeeze_run hne hg hhead, List.cons_append, after?, after?, hc, hdrop, hdrop']
      split
      · exact ih hw t
      · next hspace =>
        -- a blank is no letter of a word
        have hblank : isBlank e = false := he.resolve_left (by simpa using hspace)
        have hdiffers : ∀ d, isBlank d = true → (e == d.toUpper) = false := by
          intro d hd
          refine beq_eq_false_iff_ne.2 fun heq => ?_
          rw [heq, isBlank_toUpper, hd] at hblank
          exact Bool.noConfusion hblank
        rw [hdiffers c hc, hdiffers ' ' (by decide)]
        rfl

/-- A word that does not end in a space takes a text that does not end in a blank. -/
theorem exists_last_of_after? {w t r : Text} (hne : w ≠ [])
    (hlast : ∀ e, w.getLast? = some e → isBlank e = false) (h : after? w t = some r) :
    ∃ u x, t = u ++ x :: r ∧ isBlank x = false := by
  induction w generalizing t with
  | nil => exact absurd rfl hne
  | cons e w ih =>
    cases t with
    | nil => exact absurd h (by simp [after?])
    | cons c t =>
      rw [after?] at h
      by_cases hw : w = []
      · subst hw
        have he : isBlank e = false := hlast e rfl
        have hspace : (e == ' ') = false := beq_eq_false_iff_ne.2 fun h => by
          rw [h] at he
          exact absurd he (by decide)
        rw [hspace, if_neg (by simp)] at h
        split at h
        · next heq =>
          obtain rfl := Option.some.inj h
          refine ⟨[], c, rfl, ?_⟩
          rw [← isBlank_toUpper, ← eq_of_beq heq, he]
        · exact absurd h (by simp)
      · have hlast' : ∀ d, w.getLast? = some d → isBlank d = false := fun d hd => hlast d (by
          rw [List.getLast?_cons, hd]
          rfl)
        split at h
        · split at h
          · obtain ⟨u, x, hu, hx⟩ := ih hw hlast' h
            refine ⟨c :: (t.takeWhile isBlank ++ u), x, ?_, hx⟩
            rw [List.cons_append, List.append_assoc, ← hu, List.takeWhile_append_dropWhile]
          · exact absurd h (by simp)
        · split at h
          · obtain ⟨u, x, rfl, hx⟩ := ih hw hlast' h
            exact ⟨c :: u, x, rfl, hx⟩
          · exact absurd h (by simp)

theorem mayStartAfter_asSpace (b : Option Char) :
    mayStartAfter (b.map asSpace) = mayStartAfter b := by
  cases b with
  | none => rfl
  | some c =>
    cases hc : isBlank c with
    | false => rw [Option.map_some, asSpace_of_not_blank hc]
    | true =>
      have hstart : ∀ d, isBlank d = true → mayStartAfter (some d) = true := by
        intro d hd
        have hdot : d ≠ '.' := by
          rintro rfl
          exact absurd hd (by decide)
        simp [mayStartAfter, isIdentifierChar_of_isBlank hd, hdot]
      rw [hstart c hc, Option.map_some, asSpace_of_blank hc, hstart ' ' (by decide)]

end Keyword

/-- Up to a place that a keyword ends at, `n` characters of the text and `n'` of the squeezed
text. -/
def EndsKeyword (t : Text) (n n' : Nat) : Prop :=
  ∃ u x r, t = u ++ x :: r ∧ isBlank x = false ∧ n = (u ++ [x]).length ∧
    n' = (squeeze (u ++ [x])).length

/-- What a clause is opened with is found at the same places. -/
theorem ClauseKind.length?_squeeze {k : ClauseKind} (hk : k ≠ .leading)
    (b : Option Char) (t : Text) :
    Option.Rel (EndsKeyword t) (k.keyword.length? b t)
      (k.keyword.length? (b.map asSpace) (squeeze t)) := by
  have hword : ∀ e ∈ k.keyword.word, e = ' ' ∨ isBlank e = false := by cases k <;> decide
  have hlast : ∀ e, k.keyword.word.getLast? = some e → isBlank e = false := by
    intro e he
    have hall : k.keyword.word.getLast?.all fun e => !isBlank e := by cases k <;> decide
    rw [he] at hall
    simpa using hall
  have hne : k.keyword.word ≠ [] := by
    cases k with
    | leading => exact absurd rfl hk
    | _ => decide
  have haccepts : ∀ c, k.keyword.accepts (asSpace c) = k.keyword.accepts c := by
    intro c
    cases hc : isBlank c with
    | false => rw [asSpace_of_not_blank hc]
    | true =>
      have hmay : k.keyword.blankMayFollow = true := by cases k <;> decide
      rw [asSpace_of_blank hc, Keyword.accepts, Keyword.accepts, hmay, hc]
      rfl
  rw [Keyword.length?, Keyword.length?, Keyword.mayStartAfter_asSpace, Keyword.after?_squeeze hword]
  split
  · cases hafter : Keyword.after? k.keyword.word t with
    | none => exact .none
    | some s =>
      obtain ⟨u, x, rfl, hx⟩ := Keyword.exists_last_of_after? hne hlast hafter
      cases s with
      | nil => exact .none
      | cons c r =>
        have hsplit : squeeze (u ++ x :: c :: r) = squeeze (u ++ [x]) ++ squeeze (c :: r) := by
          rw [← squeeze_append_of_runEnds (runEnds_of_not_blank (by simpa using hx))]
          simp
        obtain ⟨d, s, hd⟩ : ∃ d s, squeeze (c :: r) = d :: s :=
          List.exists_cons_of_ne_nil (by simp)
        have hdc : d = asSpace c := by
          have hhead := head?_squeeze (c :: r)
          rw [hd] at hhead
          exact Option.some.inj hhead
        simp only [Option.map_some, hd, hdc, haccepts]
        split
        · refine .some ⟨u, x, c :: r, rfl, hx, ?_, ?_⟩
          · simp only [List.length_append, List.length_cons, List.length_nil]
            omega
          · rw [hsplit, hd, hdc, List.length_append, Nat.add_sub_cancel]
        · exact .none
  · exact .none

namespace Outline

/-- The same clause opens in the squeezed text. -/
theorem opens?_squeeze (k : ClauseKind) (b : Option Char) (t : Text) :
    Option.Rel (fun x y => x.1 = y.1 ∧ EndsKeyword t x.2 y.2) (opens? k b t)
      (opens? k (b.map asSpace) (squeeze t)) := by
  have hall : ∀ ks : List ClauseKind, (∀ j ∈ ks, j ≠ .leading) →
      Option.Rel (fun x y => x.1 = y.1 ∧ EndsKeyword t x.2 y.2)
        (ks.findSome? fun j =>
          if k.rank < j.rank then (j.keyword.length? b t).map fun n => (j, n) else none)
        (ks.findSome? fun j => if k.rank < j.rank then
          (j.keyword.length? (b.map asSpace) (squeeze t)).map fun n => (j, n) else none) := by
    intro ks hks
    induction ks with
    | nil => exact .none
    | cons j ks ih =>
      obtain ⟨hj, hks⟩ := List.forall_mem_cons.1 hks
      rw [List.findSome?_cons, List.findSome?_cons]
      by_cases hrank : k.rank < j.rank
      · have hrel := ClauseKind.length?_squeeze hj b t
        rw [if_pos hrank, if_pos hrank]
        generalize j.keyword.length? b t = x at hrel
        generalize j.keyword.length? (b.map asSpace) (squeeze t) = y at hrel
        cases hrel with
        | some h => exact .some ⟨rfl, h⟩
        | none => exact ih hks
      · rw [if_neg hrank, if_neg hrank]
        exact ih hks
  exact hall _ fun j hj => ClauseKind.ne_leading_of_mem_openable hj

/-! ## Cutting -/

variable {k : ClauseKind} {n : Nesting} {b : Option Char} {t : Text}

/-- What was read of a text, squeezed. -/
def squeezedParts (r : Text × List Clause) : Text × List Clause :=
  (squeeze r.1, r.2.map Clause.squeezed)

/-- Blanks are read over. -/
theorem split_blanks (hn : IsClosing n.closing) {g : Text} (hg : ∀ c ∈ g, isBlank c = true)
    (k : ClauseKind)
    (b : Option Char) (t : Text) :
    split k n b 0 (g ++ t) = putFront g (split k n (lastOf b g) 0 t) := by
  have hread : ∀ c, isBlank c = true → n.read c = n :=
    fun c hc => n.read_of_isIdle hn (isIdle_of_isBlank hc)
  induction g generalizing b with
  | nil => rfl
  | cons c g ih =>
    obtain ⟨hc, hg⟩ := List.forall_mem_cons.1 hg
    rw [List.cons_append,
      split_cons fun _ _ => opens?_eq_none_of_sign _ (isIdentifierChar_of_isBlank hc), hread c hc,
      ih hg, lastOf_cons]
    rfl

/-- **The same cuts.** A squeezed text is cut into the squeezed clauses of the text. -/
theorem split_squeeze (hn : IsClosing n.closing) (ht : RunEnds b t) :
    split k n (b.map asSpace) 0 (squeeze t) = squeezedParts (split k n b 0 t) := by
  induction hlength : t.length using Nat.strong_induction_on generalizing k n b t with
  | _ l ih =>
    cases laidOut t with
    | nil => rfl
    | @char c t hc _ =>
      have hread : IsClosing (n.read c).closing := isClosing_nestingAfter hn [c]
      have hnext := ih t.length (by simp [← hlength]) (k := k) (n := n.read c) (b := some c) hread
        (runEnds_of_not_blank (by simpa using hc)) rfl
      rw [Option.map_some, asSpace_of_not_blank hc] at hnext
      have hpass : ∀ r : Text × List Clause,
          putFront [c] (squeezedParts r) = squeezedParts (putFront [c] r) :=
        fun r => Prod.ext (squeeze_cons_of_not_blank hc r.1).symm rfl
      rw [squeeze_cons_of_not_blank hc]
      by_cases hopen : (n.read c).isTop = true ∧ n.closing = none
      · have hrel := opens?_squeeze k b (c :: t)
        rw [squeeze_cons_of_not_blank hc] at hrel
        generalize hleft : opens? k b (c :: t) = x at hrel
        generalize hright : opens? k (b.map asSpace) (c :: squeeze t) = y at hrel
        cases hrel with
        | none => rw [split_cons fun _ _ => hright, split_cons fun _ _ => hleft, hnext, hpass]
        | @some x y h =>
          obtain ⟨kind, m⟩ := x
          obtain ⟨kind', m'⟩ := y
          obtain ⟨rfl, u, z, r, hu, hz, rfl, rfl⟩ := h
          have hafter : (u ++ [z]).head? = some c := by
            have hhead := congrArg List.head? hu
            cases u with
            | nil => exact hhead.symm
            | cons d u => exact hhead.symm
          obtain ⟨w, hw⟩ := List.head?_eq_some_iff.1 hafter
          have hsq : squeeze (u ++ [z]) = c :: squeeze w := by rw [hw, squeeze_cons_of_not_blank hc]
          have hrest : t = w ++ r := by
            have happ : c :: t = (u ++ [z]) ++ r := by rw [hu]; simp
            rw [hw] at happ
            exact (List.cons.inj happ).2
          have hlast : w.getLast?.or (some c) = some z := by
            rw [← Text.getLast?_cons_or c w none, ← hw]
            simp
          have hruns : RunEnds w.getLast? r := by
            refine runEnds_of_not_blank ?_
            cases hd : w.getLast? with
            | none => rfl
            | some d =>
              rw [hd, Option.some_or] at hlast
              simpa [Option.some.inj hlast] using hz
          have hlast' : (squeeze w).getLast?.or (some c) = some z := by
            rw [getLast?_squeeze]
            cases hd : w.getLast? with
            | none => rwa [hd] at hlast
            | some d =>
              rw [hd, Option.some_or] at hlast
              obtain rfl := Option.some.inj hlast
              rw [Option.map_some, asSpace_of_not_blank hz, Option.some_or]
          subst hrest
          have hshort : r.length < (c :: (w ++ r)).length := by
            rw [List.length_cons, List.length_append]
            omega
          have hclause := ih r.length (hlength ▸ hshort) (k := kind) (n := n.read c) (b := some z)
            hread (runEnds_of_not_blank (by simpa using hz)) rfl
          rw [Option.map_some, asSpace_of_not_blank hz] at hclause
          rw [split_opening hopen.1 hopen.2 hleft, split_opening hopen.1 hopen.2 hright, hsq, hw,
            squeeze_append_of_runEnds hruns, List.length_cons, List.length_cons, Nat.add_sub_cancel,
            Nat.add_sub_cancel, split_skip, split_skip, hlast, hlast', hclause]
          simp only [squeezedParts, trim_squeeze, List.map_cons, Clause.squeezed, squeeze_nil]
      · have hclosed : ∀ {α : Prop}, (n.read c).isTop = true → n.closing = none → α :=
          fun htop hclosing => absurd ⟨htop, hclosing⟩ hopen
        rw [split_cons hclosed, split_cons hclosed, hnext, hpass]
    | @run g t hne hg hhead _ =>
      obtain ⟨u, x, hx⟩ := (List.eq_nil_or_concat g).resolve_left hne
      have hblank : isBlank x = true := hg x (by simp [hx])
      have hlast : lastOf b g = some x := by simp [lastOf, hx]
      have hnext := ih t.length (by
        rw [← hlength, List.length_append]
        have := List.length_pos_iff.2 hne
        omega) (k := k) (b := some x) hn (runEnds_of_head hhead) rfl
      rw [Option.map_some, asSpace_of_blank hblank] at hnext
      have hspace : ∀ r,
          split k n (b.map asSpace) 0 (' ' :: r) = putFront [' '] (split k n (some ' ') 0 r) :=
        fun r => split_blanks hn (g := [' ']) (by decide) k _ r
      -- the body begins where the text behind the run does
      have hbody : (split k n (some x) 0 t).1.head?.any isBlank = false := by
        obtain ⟨s, hs⟩ := fst_split_prefix k n (some x) t
        cases hd : (split k n (some x) 0 t).1 with
        | nil => rfl
        | cons y s' =>
          rw [hd] at hs
          rw [← hs] at hhead
          exact hhead
      rw [squeeze_run hne hg hhead, hspace, hnext, split_blanks hn hg, hlast]
      exact Prod.ext (squeeze_run hne hg hbody).symm rfl

/-! ## The outline of a text -/

theorem clausesOf_squeeze (t : Text) :
    clausesOf (squeeze t) = (clausesOf t).map Clause.squeezed := by
  have hsplit : split .leading .top none 0 (squeeze t)
      = squeezedParts (split .leading .top none 0 t) :=
    split_squeeze (b := none) isClosing_none (runEnds_of_not_blank rfl)
  have hempty : (trim (squeezedParts (split .leading .top none 0 t)).1).isEmpty =
      (trim (split .leading .top none 0 t).1).isEmpty := by
    rw [squeezedParts, trim_squeeze, Bool.eq_iff_iff, List.isEmpty_iff, List.isEmpty_iff,
      squeeze_eq_nil_iff]
  rw [clausesOf, clausesOf, hsplit]
  simp only [hempty]
  split
  · rfl
  · simp only [squeezedParts, trim_squeeze, List.map_cons, Clause.squeezed]

theorem bodyOf_collapse (t : Text) : bodyOf (collapse t) = squeeze (bodyOf t) := by
  have hsemicolon : ∀ c, (c == ';') = true → isBlank c = false := fun c hc => by
    rw [eq_of_beq hc]
    decide
  rw [bodyOf, bodyOf, (singleSpaced_collapse t).trim_eq_self, ← squeeze_trim,
    ← squeeze_dropEnd hsemicolon,
    squeeze_trimEnd]

/-- **The outline of a collapsed text** has the clauses of the text, with the runs of blanks in
their bodies written as one space. -/
theorem scan_collapse (t : Text) : scan (collapse t) = (scan t).squeezed := by
  have hlast : ((collapse t).getLast? == some ';') = ((trim t).getLast? == some ';') := by
    rw [← squeeze_trim, getLast?_squeeze]
    cases hd : (trim t).getLast? with
    | none => rfl
    | some c => rw [Option.map_some, asSpace_of_not_blank (getLast?_trim hd)]
  rw [scan, scan, bodyOf_collapse, clausesOf_squeeze, (singleSpaced_collapse t).trim_eq_self,
    endsWith_semicolon, endsWith_semicolon, hlast, squeezed]

/-- Texts with the same words have the same outline, but for the layout of the bodies. -/
theorem squeezed_scan_congr {t u : Text} (h : words t = words u) :
    (scan t).squeezed = (scan u).squeezed := by
  rw [← scan_collapse, ← scan_collapse, collapse, collapse, h]

/-! ## Writing -/

/-- The layout of the bodies does not count when an outline is written. -/
theorem render_squeezed (o : Outline) : o.squeezed.render = o.render := by
  have hclause : ∀ c : Clause, words (writeClause c.squeezed) = words (writeClause c) := by
    rintro ⟨kind, body⟩
    by_cases hkind : kind = .leading
    · subst hkind
      exact words_squeeze body
    · rw [words_writeClause hkind, words_writeClause hkind]
      exact congrArg _ (words_squeeze body)
  rw [render_eq, render_eq, written_eq, written_eq, squeezed, List.flatMap_map]
  simp only [hclause]

end Outline

end SqlScribe
