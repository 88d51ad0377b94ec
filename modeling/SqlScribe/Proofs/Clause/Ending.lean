import SqlScribe.Proofs.Clause.Squeezed
import SqlScribe.Proofs.Clause.Stability

/-!
# How a statement ends

Scanning drops one run of semicolons from the end of a statement and the blanks around it, while
the normal form is without all of them. The two agree exactly where the semicolons at the end stand
together; where a blank stands between them, all but the last run go into the last clause. Main
statements:

* `getLast?_bodyOf_iff`: when a semicolon is left at the end of what is scanned;
* `squeeze_bodyOf`: where none is left the words of the normal form are scanned;
* `unterminated_render_iff`: when the outlines of a text and of its normal form are written alike;
* `exists_last_body_iff`: a semicolon that is left ends the body of the last clause.
-/

namespace SqlScribe

open Text

/-! ## The end of a text -/

namespace Text

variable {t : Text} {c : Char}

theorem toUpper_eq_semicolon_iff : c.toUpper = ';' ↔ c = ';' := by
  constructor
  · intro h
    cases hc : c.isLower with
    | true => exact absurd (isUpper_toUpper_of_isLower hc) (by rw [h]; decide)
    | false => rwa [toUpper_of_not_isLower hc] at h
  · rintro rfl
    decide

/-- A text that does not end in a blank ends in `;` when its ink does. -/
theorem getLast?_eq_semicolon_iff (h : ∀ c, t.getLast? = some c → isBlank c = false) :
    t.getLast? = some ';' ↔ (ink t).getLast? = some ';' := by
  rcases List.eq_nil_or_concat t with rfl | ⟨u, c, rfl⟩
  · rfl
  · rw [List.concat_eq_append] at h ⊢
    have hc := h c List.getLast?_concat
    have hink : ink [c] = [c.toUpper] := by
      rw [ink, List.filter_cons_of_pos (by simp [hc])]
      rfl
    rw [ink_append, hink, List.getLast?_concat, List.getLast?_concat, Option.some_inj,
      Option.some_inj, toUpper_eq_semicolon_iff]

theorem trimStart_concat (hc : isBlank c = false) (t : Text) :
    trimStart (t ++ [c]) = trimStart t ++ [c] := by
  rw [trimStart, trimStart, List.dropWhile_append]
  split
  · next h =>
    rw [List.isEmpty_iff.1 h, List.dropWhile_cons_of_neg (by simp [hc])]
    rfl
  · rfl

theorem trim_concat (hc : isBlank c = false) (t : Text) : trim (t ++ [c]) = trimStart t ++ [c] := by
  rw [trim, trimStart_concat hc, trimEnd, dropEnd_concat_of_neg hc]

theorem trim_append_blanks {e : Text} (he : ∀ c ∈ e, isBlank c = true) (t : Text) :
    trim (t ++ e) = trim t := by
  rw [trim, trim, trimStart, trimStart, List.dropWhile_append]
  split
  · next h =>
    have hrest : ∀ c ∈ e.dropWhile isBlank, isBlank c = true := fun c hc =>
      he c (List.dropWhile_subset _ hc)
    rw [List.isEmpty_iff.1 h]
    exact dropEnd_append_of_all hrest []
  · exact dropEnd_append_of_all he _

theorem trimStart_append {w : Text} (hw : ∀ c ∈ w, isBlank c = false) (t : Text) :
    trimStart (t ++ w) = trimStart t ++ w := by
  induction w using List.reverseRecOn with
  | nil => rw [List.append_nil, List.append_nil]
  | append_singleton w c ih =>
    rw [← List.append_assoc, trimStart_concat (hw c (by simp)),
      ih fun d hd => hw d (List.mem_append_left _ hd), List.append_assoc]

theorem getLast?_of_trimStart (h : (trimStart t).getLast? = some c) : t.getLast? = some c := by
  rw [← List.takeWhile_append_dropWhile (p := isBlank) (l := t), List.getLast?_append]
  exact congrArg (Option.or · _) h

end Text

namespace Statement

/-! ## Terminators -/

/-- The text without the `;` at its end. -/
def unterminated (t : Text) : Text := if Text.endsWith t ";" then t.dropLast else t

/-- The semicolons and blanks a text ends in. -/
def finalRun (sql : Text) : Text := (sql.reverse.takeWhile isTerminator).reverse

/-- The semicolons at the end of a text stand together: there is no blank between them. -/
def Together (sql : Text) : Prop := (words (finalRun sql)).length ≤ 1

instance (sql : Text) : Decidable (Together sql) := inferInstanceAs (Decidable (_ ≤ _))

theorem dropEnd_append_finalRun (sql : Text) : dropEnd isTerminator sql ++ finalRun sql = sql := by
  rw [dropEnd, finalRun, ← List.reverse_append, List.takeWhile_append_dropWhile,
    List.reverse_reverse]

theorem isTerminator_of_mem_finalRun {sql : Text} : ∀ c ∈ finalRun sql, isTerminator c = true :=
  fun _ hc => List.all_eq_true.1 List.all_takeWhile _ (List.mem_reverse.1 hc)

/-- Behind a text without semicolons all terminators belong to the end. -/
theorem together_append_iff {x y : Text} (hx : ';' ∉ x) (hy : ∀ c ∈ y, isTerminator c = true) :
    Together (x ++ y) ↔ (words y).length ≤ 1 := by
  obtain ⟨e, he, hblank⟩ := dropEnd_append_ending isBlank x
  have hall : ∀ c ∈ (e ++ y).reverse, isTerminator c = true := by
    intro c hc
    rcases List.mem_append.1 (List.mem_reverse.1 hc) with hc | hc
    · exact isTerminator_of_isBlank (hblank c hc)
    · exact hy c hc
  have hstop : ∀ c, (dropEnd isBlank x).reverse.head? = some c → isTerminator c = false := by
    intro c hc
    rw [List.head?_reverse] at hc
    have hne : c ≠ ';' := by
      rintro rfl
      exact hx (mem_of_mem_dropEnd (List.mem_of_getLast? hc))
    rw [isTerminator, getLast?_dropEnd hc, Bool.or_false]
    exact beq_eq_false_iff_ne.2 hne
  have hrun : finalRun (x ++ y) = e ++ y := by
    rw [finalRun, he, List.append_assoc, List.reverse_append, takeWhile_append_of_head hall hstop,
      List.reverse_reverse]
  rw [Together, hrun, words_append_of_last fun c hc => hblank c (List.mem_of_getLast? hc),
    words_eq_nil_iff.2 hblank, List.nil_append]

/-- Terminators are blanks, or there is a last run of semicolons among them. -/
theorem exists_semicolons {e : Text} (he : ∀ c ∈ e, isTerminator c = true) :
    (∀ c ∈ e, isBlank c = true) ∨ ∃ r w g, e = r ++ (w ++ g) ∧ w ≠ [] ∧ (∀ c ∈ w, c = ';') ∧
      (∀ c ∈ g, isBlank c = true) ∧ ∀ c, r.getLast? = some c → isBlank c = true := by
  obtain ⟨g, hg, hblank⟩ := dropEnd_append_ending isBlank e
  obtain ⟨w, hw, hsemi⟩ := dropEnd_append_ending (· == ';') (dropEnd isBlank e)
  have hrest : ∀ c ∈ dropEnd (· == ';') (dropEnd isBlank e), isTerminator c = true := fun c hc =>
    he c (mem_of_mem_dropEnd (mem_of_mem_dropEnd hc))
  by_cases hnil : w = []
  · refine Or.inl ?_
    rw [hnil, List.append_nil] at hw
    rcases List.eq_nil_or_concat (dropEnd isBlank e) with hend | ⟨u, c, hend⟩
    · rw [hg, hend, List.nil_append]
      exact hblank
    · have hlast : (dropEnd isBlank e).getLast? = some c := by
        rw [hend, List.concat_eq_append, List.getLast?_concat]
      have hc := eq_semicolon_of_isTerminator
        (he c (mem_of_mem_dropEnd (List.mem_of_getLast? hlast))) (getLast?_dropEnd hlast)
      rw [hw] at hlast
      exact absurd (getLast?_dropEnd hlast) (by simp [hc])
  · refine Or.inr ⟨dropEnd (· == ';') (dropEnd isBlank e), w, g, ?_, hnil,
      fun c hc => eq_of_beq (hsemi c hc), hblank, fun c hc => ?_⟩
    · rw [← List.append_assoc, ← hw, ← hg]
    · by_contra hne
      have hsem := eq_semicolon_of_isTerminator (hrest c (List.mem_of_getLast? hc))
        (by simpa using hne)
      exact absurd (getLast?_dropEnd hc) (by simp [hsem])

end Statement

namespace Outline

open Statement

variable {sql : Text}

/-! ## What is scanned -/

theorem getLast?_bodyOf_not_blank {c : Char} (h : (bodyOf sql).getLast? = some c) :
    isBlank c = false :=
  getLast?_dropEnd h

/-- Where no semicolon ends the statement nothing is dropped but the blanks around it. -/
theorem bodyOf_of_open (h : (trim sql).getLast? ≠ some ';') : bodyOf sql = trim sql := by
  rw [bodyOf, dropEnd_eq_self fun c hc => ?_]
  · exact dropEnd_eq_self fun c hc => getLast?_trim hc
  · refine beq_eq_false_iff_ne.2 ?_
    rintro rfl
    exact h hc

/-- Scanning drops one run of semicolons, and the blanks around it. -/
theorem bodyOf_append {x w g : Text} (hx : x.getLast? ≠ some ';') (hne : w ≠ [])
    (hw : ∀ c ∈ w, c = ';') (hg : ∀ c ∈ g, isBlank c = true) : bodyOf (x ++ (w ++ g)) = trim x := by
  have hblank : ∀ c ∈ w, isBlank c = false := fun c hc => by
    rw [hw c hc]
    decide
  have htrim : trim (x ++ (w ++ g)) = trimStart x ++ w := by
    rw [← List.append_assoc, trim_append_blanks hg, trim, trimStart_append hblank]
    refine dropEnd_eq_self fun c hc => hblank c (List.mem_of_getLast? ?_)
    rwa [List.getLast?_append_of_ne_nil _ hne] at hc
  rw [bodyOf, htrim, dropEnd_append (fun c hc => ?_) fun c hc => by simp [hw c hc], trim]
  refine beq_eq_false_iff_ne.2 ?_
  rintro rfl
  exact hx (getLast?_of_trimStart hc)

/-- A text that no terminator ends is trimmed to one that no semicolon ends. -/
theorem getLast?_trim_ne {x : Text} (hx : ∀ c, x.getLast? = some c → isTerminator c = false) :
    (trim x).getLast? ≠ some ';' := by
  rcases List.eq_nil_or_concat x with rfl | ⟨u, c, rfl⟩
  · decide
  · rw [List.concat_eq_append] at hx ⊢
    have hc := hx c List.getLast?_concat
    rw [isTerminator, Bool.or_eq_false_iff] at hc
    rw [trim_concat hc.2, List.getLast?_concat]
    rintro ⟨rfl⟩
    exact absurd hc.1 (by decide)

/-- Of terminators behind a text trimming leaves the last semicolon, if there is one. -/
theorem getLast?_trim_append_iff {x r : Text}
    (hx : ∀ c, x.getLast? = some c → isTerminator c = false) (hr : ∀ c ∈ r, isTerminator c = true) :
    (trim (x ++ r)).getLast? = some ';' ↔ words r ≠ [] := by
  obtain ⟨e, he, hblank⟩ := dropEnd_append_ending isBlank r
  rcases List.eq_nil_or_concat (dropEnd isBlank r) with hnil | ⟨u, c, hu⟩
  · rw [hnil, List.nil_append] at he
    rw [he, trim_append_blanks hblank, words_eq_nil_iff.2 hblank]
    exact iff_of_false (getLast?_trim_ne hx) (by simp)
  · rw [List.concat_eq_append] at hu
    have hlast : (dropEnd isBlank r).getLast? = some c := by rw [hu, List.getLast?_concat]
    have hmem : c ∈ r := mem_of_mem_dropEnd (List.mem_of_getLast? hlast)
    obtain rfl := eq_semicolon_of_isTerminator (hr c hmem) (getLast?_dropEnd hlast)
    refine iff_of_true ?_ fun hwords => absurd (words_eq_nil_iff.1 hwords _ hmem) (by decide)
    rw [he, hu, ← List.append_assoc, trim_append_blanks hblank, ← List.append_assoc,
      trim_concat (by decide), List.getLast?_concat]

/-- A semicolon is left at the end of what is scanned exactly where the semicolons at the end of the
statement do not stand together. -/
theorem getLast?_bodyOf_iff (sql : Text) : (bodyOf sql).getLast? = some ';' ↔ ¬ Together sql := by
  have hsplit := dropEnd_append_finalRun sql
  have hfront : ∀ c, (dropEnd isTerminator sql).getLast? = some c → isTerminator c = false :=
    fun _ hc => getLast?_dropEnd hc
  have hall : ∀ c ∈ finalRun sql, isTerminator c = true := isTerminator_of_mem_finalRun
  rw [Together]
  generalize dropEnd isTerminator sql = x at hsplit hfront
  rcases exists_semicolons hall with hblank | ⟨r, w, g, hrun, hne, hw, hg, hr⟩
  · have hend : (trim sql).getLast? ≠ some ';' := by
      rw [← hsplit, trim_append_blanks hblank]
      exact getLast?_trim_ne hfront
    rw [bodyOf_of_open hend, words_eq_nil_iff.2 hblank]
    exact iff_of_false hend (by simp)
  · have hwords : words (finalRun sql) = words r ++ [w] := by
      have hword : IsWord w := ⟨hne, fun c hc => by rw [hw c hc]; decide⟩
      rw [hrun, words_append_of_last hr,
        words_append_of_head fun c hc => hg c (List.mem_of_mem_head? hc), words_of_isWord hword,
        words_eq_nil_iff.2 hg, List.append_nil]
    have hlast : (x ++ r).getLast? ≠ some ';' := by
      rw [List.getLast?_append]
      cases hr' : r.getLast? with
      | none =>
        intro hx
        exact absurd (hfront _ hx) (by decide)
      | some c =>
        rintro ⟨rfl⟩
        exact absurd (hr _ hr') (by decide)
    have hrest : ∀ c ∈ r, isTerminator c = true :=
      fun c hc => hall c (hrun ▸ List.mem_append_left _ hc)
    have hbody : bodyOf sql = trim (x ++ r) := by
      rw [← hsplit, hrun, ← List.append_assoc, bodyOf_append hlast hne hw hg]
    rw [hbody, getLast?_trim_append_iff hfront hrest, hwords, List.length_append,
      List.length_singleton, ← List.length_pos_iff]
    omega

/-- Otherwise the words of the normal form are scanned. -/
theorem squeeze_bodyOf (h : (bodyOf sql).getLast? ≠ some ';') :
    squeeze (bodyOf sql) = bodyText sql := by
  have hdropped : ∃ e, collapse sql = squeeze (bodyOf sql) ++ e ∧
      ∀ c ∈ e, isTerminator c = true := by
    obtain ⟨w, hw, hsemi⟩ := dropEnd_append_ending (· == ';') (collapse sql)
    obtain ⟨g, hg, hblank⟩ := dropEnd_append_ending isBlank (dropEnd (· == ';') (collapse sql))
    refine ⟨g ++ w, ?_, fun c hc => ?_⟩
    · rw [← bodyOf_collapse, bodyOf, (singleSpaced_collapse sql).trim_eq_self, ← List.append_assoc,
        trimEnd, ← hg, ← hw]
    · rw [isTerminator, Bool.or_eq_true]
      exact (List.mem_append.1 hc).symm.imp (hsemi c) (hblank c)
  obtain ⟨e, he, hterm⟩ := hdropped
  rw [bodyText, he, dropEnd_append (fun c hc => ?_) hterm]
  rw [getLast?_squeeze] at hc
  obtain ⟨d, hd, rfl⟩ := Option.map_eq_some_iff.1 hc
  have hblank := getLast?_bodyOf_not_blank hd
  rw [asSpace_of_not_blank hblank]
  by_contra hd'
  exact h (eq_semicolon_of_isTerminator (by simpa using hd') hblank ▸ hd)

/-! ## What is written -/

theorem getLast?_written_not_blank (cs : List Clause) {c : Char}
    (h : (written cs).getLast? = some c) :
    isBlank c = false :=
  (singleSpaced_written cs).last_not_blank h

/-- What is written for the clauses of a text ends in `;` when the text does. -/
theorem getLast?_written_clausesOf {t : Text} (ht : ∀ c, t.getLast? = some c → isBlank c = false) :
    (written (clausesOf t)).getLast? = some ';' ↔ t.getLast? = some ';' := by
  rw [getLast?_eq_semicolon_iff fun c => getLast?_written_not_blank _, ink_written, ← ink_clausesOf,
    getLast?_eq_semicolon_iff ht]

theorem written_map_squeezed (cs : List Clause) :
    written (cs.map Clause.squeezed) = written cs := by
  have hrender := render_squeezed ⟨cs, false⟩
  rw [render_eq, render_eq] at hrender
  exact List.append_cancel_right hrender

/-- Without its `;` an outline is written as its clauses are. -/
theorem unterminated_render (sql : Text) :
    unterminated (scan sql).render = written (scan sql).clauses := by
  rw [unterminated, render_eq, endsWith_semicolon]
  cases hterm : (scan sql).terminated with
  | true =>
    rw [if_pos rfl, if_pos (by rw [List.getLast?_concat, beq_self_eq_true]), List.dropLast_concat]
  | false =>
    have hend : (trim sql).getLast? ≠ some ';' := by
      have hends := hterm
      rw [scan, endsWith_semicolon] at hends
      simpa using hends
    have hlast : (written (scan sql).clauses).getLast? ≠ some ';' := by
      rw [scan_clauses, Ne, getLast?_written_clausesOf fun c => getLast?_bodyOf_not_blank,
        bodyOf_of_open hend]
      exact hend
    rw [if_neg Bool.false_ne_true, List.append_nil, if_neg (by simpa using hlast)]

/-- **Terminators that do not stand together are told apart.** The outlines of a text and of its
normal form are written alike exactly where no semicolon is left. -/
theorem unterminated_render_iff (sql : Text) :
    unterminated (scan sql).render = unterminated (scan (normalize sql)).render ↔
      (bodyOf sql).getLast? ≠ some ';' := by
  have hnormal : bodyOf (normalize sql) = bodyText sql :=
    bodyOf_isBody_semicolon (isBody_bodyText sql)
  have hlast : (bodyText sql).getLast? ≠ some ';' := fun h =>
    absurd ((isBody_bodyText sql).last _ h) (by decide)
  have hblank : ∀ c, (bodyText sql).getLast? = some c → isBlank c = false := fun c hc =>
    (isBody_bodyText sql).spaced.last_not_blank hc
  rw [unterminated_render, unterminated_render, scan_clauses, scan_clauses, hnormal]
  constructor
  · intro h hend
    rw [← getLast?_written_clausesOf fun c => getLast?_bodyOf_not_blank, h,
      getLast?_written_clausesOf hblank] at hend
    exact hlast hend
  · intro h
    rw [← squeeze_bodyOf h, clausesOf_squeeze, written_map_squeezed]

/-! ## The last clause -/

/-- No blank ends the body of a clause that opens. -/
theorem body_not_blank_of_mem_split (k : ClauseKind) (n : Nesting) (before : Option Char)
    (skip : Nat) (t : Text) : ∀ c ∈ (split k n before skip t).2, ∀ x, c.body.getLast? = some x →
      isBlank x = false := by
  induction t generalizing k n before skip with
  | nil =>
    have hnil : (split k n before skip []).2 = [] := by cases skip <;> rfl
    rw [hnil]
    exact fun c hc => absurd hc List.not_mem_nil
  | cons d t ih =>
    cases skip with
    | succ skip => exact ih k n (some d) skip
    | zero =>
      rw [split]
      split
      · next kind length _ =>
        exact List.forall_mem_cons.2 ⟨fun x hx => getLast?_trim hx,
          ih kind (n.read d) (some d) (length - 1)⟩
      · exact ih k (n.read d) (some d) 0

theorem body_not_blank_of_mem_clausesOf {t : Text} {c : Clause} (hc : c ∈ clausesOf t) :
    ∀ x, c.body.getLast? = some x → isBlank x = false := by
  have hlater := body_not_blank_of_mem_split .leading .top none 0 t
  rw [clausesOf] at hc
  split at hc
  · exact hlater c hc
  · rcases List.mem_cons.1 hc with rfl | hc
    · exact fun x hx => getLast?_trim hx
    · exact hlater c hc

/-- Clauses in order end as the last of them does. -/
theorem getLast?_written {cs : List Clause} (h : Ordered cs) {c : Clause}
    (hc : cs.getLast? = some c) :
    (written cs).getLast? = (written [c]).getLast? := by
  induction cs with
  | nil => exact absurd hc (by simp)
  | cons d cs ih =>
    cases cs with
    | nil =>
      obtain rfl := Option.some.inj hc
      rfl
    | cons e cs =>
      rw [List.getLast?_cons_cons] at hc
      rw [getLast?_written_cons (List.cons_ne_nil e cs) (kinds_of_ordered_cons h)]
      exact ih (List.pairwise_cons.1 h).2 hc

/-- A clause is written with a `;` at its end when its body ends in one: no keyword does. -/
theorem getLast?_written_singleton {c : Clause}
    (h : ∀ x, c.body.getLast? = some x → isBlank x = false) :
    (written [c]).getLast? = some ';' ↔ c.body.getLast? = some ';' := by
  have hword : ∀ k : ClauseKind, (ink k.word).getLast? ≠ some ';' := by
    intro k
    cases k <;> decide
  rw [getLast?_eq_semicolon_iff fun x => getLast?_written_not_blank _, ink_written,
    List.flatMap_singleton, ink_writeClause, List.getLast?_append, Option.or_eq_some_iff,
    getLast?_eq_semicolon_iff h]
  exact or_iff_left fun hw => hword c.kind hw.2

/-- **Where a semicolon stays.** A semicolon that is left at the end of what is scanned ends the
body of the last clause. -/
theorem exists_last_body_iff (sql : Text) :
    (∃ c, (scan sql).clauses.getLast? = some c ∧ c.body.getLast? = some ';') ↔
      (bodyOf sql).getLast? = some ';' := by
  have hordered := ordered_scan sql
  rw [← getLast?_written_clausesOf fun c => getLast?_bodyOf_not_blank]
  rw [scan_clauses] at hordered ⊢
  cases hlast : (clausesOf (bodyOf sql)).getLast? with
  | none =>
    rw [List.getLast?_eq_none_iff.1 hlast]
    exact iff_of_false (by simp) (by decide)
  | some c =>
    have hbody := body_not_blank_of_mem_clausesOf (List.mem_of_getLast? hlast)
    rw [getLast?_written hordered hlast, getLast?_written_singleton hbody]
    simp

/-- A statement that a semicolon is left of ends in one. -/
theorem terminated_of_getLast?_bodyOf (h : (bodyOf sql).getLast? = some ';') :
    (scan sql).terminated = true := by
  rw [scan, endsWith_semicolon, beq_iff_eq]
  by_contra hend
  rw [bodyOf_of_open hend] at h
  exact hend h

/-- What is scanned stands in the statement. -/
theorem exists_bodyOf (sql : Text) : ∃ u e, sql = u ++ (bodyOf sql ++ e) := by
  obtain ⟨u, e, hsql, -, -⟩ := exists_trim sql
  obtain ⟨w, hw, -⟩ := dropEnd_append_ending (· == ';') (trim sql)
  obtain ⟨g, hg, -⟩ := dropEnd_append_ending isBlank (dropEnd (· == ';') (trim sql))
  have hbody : trim sql = bodyOf sql ++ (g ++ w) := by
    rw [← List.append_assoc, bodyOf, trimEnd, ← hg, ← hw]
  exact ⟨u, g ++ w ++ e, by rwa [← List.append_assoc (bodyOf sql), ← hbody]⟩

/-- Where all semicolons are at the end and stand together, none is in a clause. -/
theorem avoids_scan_of_together {x y : Text} (hx : ';' ∉ x) (hy : ∀ c ∈ y, isTerminator c = true)
    (h : Together (x ++ y)) : (scan (x ++ y)).Avoids ';' := by
  intro c hc hmem
  rw [scan_clauses] at hc
  obtain ⟨u, e, hsplit⟩ := exists_bodyOf (x ++ y)
  obtain ⟨p, q, hbody⟩ := List.append_of_mem (mem_of_mem_clausesOf hc hmem)
  have hq : ∀ d ∈ ';' :: q, isTerminator d = true := by
    rw [hbody, List.append_assoc, ← List.append_assoc] at hsplit
    intro d hd
    rcases List.append_eq_append_iff.1 hsplit with ⟨l, -, hl⟩ | ⟨l, hl, hr⟩
    · exact hy d (hl ▸ List.mem_append_right l (List.mem_append_left e hd))
    · cases l with
      | nil => exact hy d (List.nil_append y ▸ hr ▸ List.mem_append_left e hd)
      | cons z l =>
        obtain ⟨rfl, -⟩ := List.cons.inj hr
        exact absurd (hl ▸ List.mem_append_right _ List.mem_cons_self) hx
  obtain ⟨d, hd⟩ := Option.ne_none_iff_exists'.1
    (List.getLast?_eq_none_iff.not.2 (List.cons_ne_nil ';' q))
  have hlast : (bodyOf (x ++ y)).getLast? = some d := by
    rw [hbody, List.getLast?_append, hd, Option.some_or]
  obtain rfl := eq_semicolon_of_isTerminator (hq d (List.mem_of_getLast? hd))
    (getLast?_bodyOf_not_blank hlast)
  exact (getLast?_bodyOf_iff _).1 hlast h

end Outline

end SqlScribe
