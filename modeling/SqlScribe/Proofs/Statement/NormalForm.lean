import SqlScribe.Proofs.Text.Layout
import SqlScribe.Statement.Basic

/-!
# The normal form of statements

A statement in normal form is a single-spaced text with one `;` behind it. Main
statements:

* `normalize_of_body`, `normalize_normalize`: normal forms are left alone;
* `segmentCount_append`, `segmentCount_pos_of_mem`: how segments are counted;
* `semicolon_not_mem_of_segmentCount`: a normal form of one segment that does not
  begin with a semicolon has no other semicolon than the last one.
-/

namespace SqlScribe

namespace Statement

/-! ## Terminators -/

theorem isTerminator_of_isBlank {c : Char} (h : isBlank c = true) : isTerminator c = true := by
  rw [isTerminator, h, Bool.or_true]

theorem eq_semicolon_of_isTerminator {c : Char} (h : isTerminator c = true)
    (hb : isBlank c = false) :
    c = ';' := by
  rw [isTerminator, hb, Bool.or_false] at h
  exact eq_of_beq h

/-! ## Bodies -/

/-- What stands in front of the `;` of a normal form: a single-spaced text that neither a
blank nor a semicolon ends. -/
structure IsBody (t : Text) : Prop where
  spaced : Text.SingleSpaced t
  last : ∀ c, t.getLast? = some c → isTerminator c = false

/-- A single-spaced text without a semicolon is a body. -/
theorem isBody_of_single {t : Text} (h : Text.SingleSpaced t) (hs : ';' ∉ t) : IsBody t := by
  refine ⟨h, fun c hc => ?_⟩
  rw [isTerminator, Bool.or_eq_false_iff]
  refine ⟨beq_eq_false_iff_ne.2 ?_, h.last_not_blank hc⟩
  rintro rfl
  exact hs (List.mem_of_getLast? hc)

/-- The body of the normal form. -/
def bodyText (sql : Text) : Text := Text.dropEnd isTerminator (Text.collapse sql)

theorem isBody_bodyText (sql : Text) : IsBody (bodyText sql) := by
  have hlast : ∀ c, (bodyText sql).getLast? = some c → isTerminator c = false :=
    fun _ hc => Text.getLast?_dropEnd hc
  refine ⟨?_, hlast⟩
  obtain ⟨e, he, -⟩ := Text.dropEnd_append_ending isTerminator (Text.collapse sql)
  refine Text.SingleSpaced.of_append (b := e) ?_ fun hsp => absurd (hlast _ hsp) (by decide)
  exact he ▸ Text.singleSpaced_collapse sql

theorem singleSpaced_body_semicolon {b : Text} (hb : IsBody b) :
    Text.SingleSpaced (b ++ [';']) :=
  hb.spaced.concat (by decide)

/-- A body with a `;` behind it is a normal form. -/
theorem normalize_of_body {b : Text} (hb : IsBody b) : normalize (b ++ [';']) = b ++ [';'] := by
  rw [normalize, Text.singleSpaced_iff.1 (singleSpaced_body_semicolon hb),
    Text.dropEnd_concat_of_pos (by decide), Text.dropEnd_eq_self hb.last]

/-- Normalizing a text twice is normalizing it once. -/
theorem normalize_normalize (sql : Text) : normalize (normalize sql) = normalize sql :=
  normalize_of_body (isBody_bodyText sql)

/-- Where no semicolon is left, one is written behind the words and nothing is dropped. -/
theorem normalize_eq_collapse {t : Text} (hs : ';' ∉ Text.collapse t) :
    normalize t = Text.collapse t ++ [';'] := by
  have hbody := isBody_of_single (Text.singleSpaced_collapse t) hs
  rw [normalize, Text.dropEnd_eq_self hbody.last]

/-- Without a semicolon the words get one at the end and nothing is dropped. -/
theorem normalize_of_single {t : Text} (hs : ';' ∉ t) : normalize t = Text.collapse t ++ [';'] :=
  normalize_eq_collapse fun hmem => (Text.mem_collapse hmem).elim (by decide) hs

/-! ## Segments -/

/-- A semicolon separates the segments in front of it from those behind. -/
theorem segmentCount_append (a b : Text) :
    segmentCount (a ++ ';' :: b) = segmentCount a + segmentCount b := by
  rw [segmentCount, Text.cut_append_cons (by decide), List.filter_append, List.length_append]
  rfl

/-- A text has a segment when something else than blanks and semicolons is in it. -/
theorem segmentCount_pos_of_mem {t : Text} {c : Char} (hc : c ∈ t) (hn : isTerminator c = false) :
    0 < segmentCount t := by
  rw [isTerminator, Bool.or_eq_false_iff] at hn
  have hmem : c ∈ (Text.cut (· == ';') t).flatten := by
    rw [Text.flatten_cut]
    exact List.mem_filter.2 ⟨hc, by simpa using hn.1⟩
  obtain ⟨s, hs, hcs⟩ := List.mem_flatten.1 hmem
  refine List.length_pos_of_mem (List.mem_filter.2 ⟨hs, ?_⟩)
  rw [Bool.not_eq_true', Text.isAllBlank, List.all_eq_false]
  exact ⟨c, hcs, by simp [hn.2]⟩

/-- In a body with a `;` behind it there is no other semicolon, if the whole has one
segment at most and does not begin with a semicolon. -/
theorem semicolon_not_mem_of_segmentCount {b : Text} (hb : IsBody b) {c : Char}
    (hc : (b ++ [';']).head? = some c) (hn : isTerminator c = false)
    (hcount : segmentCount (b ++ [';']) ≤ 1) : ';' ∉ b := by
  intro hmem
  obtain ⟨u, v, rfl⟩ := List.append_of_mem hmem
  have hu : 0 < segmentCount u := by
    cases u with
    | nil =>
      simp only [List.nil_append, List.cons_append, List.head?_cons, Option.some.injEq] at hc
      subst hc
      exact absurd hn (by decide)
    | cons d u =>
      simp only [List.cons_append, List.head?_cons, Option.some.injEq] at hc
      subst hc
      exact segmentCount_pos_of_mem List.mem_cons_self hn
  have hv : 0 < segmentCount v := by
    rcases List.eq_nil_or_concat v with rfl | ⟨w, d, rfl⟩
    · exact absurd (hb.last ';' (by simp)) (by decide)
    · have hd : isTerminator d = false := by
        refine hb.last d ?_
        rw [List.concat_eq_append, ← List.cons_append, ← List.append_assoc,
          List.getLast?_concat]
      exact segmentCount_pos_of_mem (by simp) hd
  have hsplit : segmentCount (u ++ ';' :: v ++ [';'])
      = segmentCount u + segmentCount v + segmentCount [] := by
    rw [segmentCount_append, segmentCount_append]
  omega

end Statement

end SqlScribe
