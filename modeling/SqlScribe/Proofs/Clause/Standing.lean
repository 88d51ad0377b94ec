import SqlScribe.Proofs.Clause.Census

/-!
# Where a counted word stands

A word that is counted stands at a place of the text. Where it is the word of a clause and the
scanner has found no such clause, the keyword is not recognised at that place. Main statements:

* `Text.exists_of_census_pos`: a counted word has a place;
* `Outline.exists_unopened`: a word of a clause that the scanner passes over.
-/

namespace SqlScribe

open Outline

theorem Nesting.eq_top_of_isTop {n : Nesting} (h : n.isTop = true) : n = .top := by
  obtain ⟨depth, closing⟩ := n
  obtain ⟨rfl, rfl⟩ : depth = 0 ∧ closing = none := by simpa [isTop] using h
  rfl

namespace Text

/-- The word, given in capitals, stands as `u` between two parts of a text: at the top level, and
no identifier goes on in front of it or behind it. -/
structure StandsBetween (w a u r : Text) : Prop where
  spelled : u.asciiUpper = w
  level : nestingAfter .top a = .top
  front : ∀ c, a.getLast? = some c → isIdentifierChar c = false
  behind : ∀ c, r.head? = some c → isIdentifierChar c = false

variable {w a b u r t run : Text} {n : Nesting}

theorem standsBetween_iff : StandsBetween w a u r ↔ u.asciiUpper = w ∧ nestingAfter .top a = .top ∧
    (a.getLast?.all fun c => !isIdentifierChar c) = true ∧
      (r.head?.all fun c => !isIdentifierChar c) = true := by
  simp only [Option.all_eq_true, Bool.not_eq_true']
  constructor
  · rintro ⟨hspelled, hlevel, hfront, hbehind⟩
    exact ⟨hspelled, hlevel, hfront, hbehind⟩
  · rintro ⟨hspelled, hlevel, hfront, hbehind⟩
    exact ⟨hspelled, hlevel, hfront, hbehind⟩

instance (w a u r : Text) : Decidable (StandsBetween w a u r) :=
  decidable_of_iff _ standsBetween_iff.symm

theorem StandsBetween.ne_nil (h : StandsBetween w a u r) (hw : w ≠ []) : u ≠ [] := by
  rintro rfl
  exact hw h.spelled.symm

/-- A word of a part stands in the whole, if no identifier goes on where the part is cut off. -/
theorem StandsBetween.within (h : StandsBetween w a u r) (hb : nestingAfter .top b = .top)
    (hfront : a = [] → ∀ c, b.getLast? = some c → isIdentifierChar c = false)
    (hbehind : r = [] → ∀ c, t.head? = some c → isIdentifierChar c = false) :
    StandsBetween w (b ++ a) u (r ++ t) where
  spelled := h.spelled
  level := by rw [nestingAfter_append, hb, h.level]
  front c hc := by
    by_cases ha : a = []
    · exact hfront ha c (by rwa [ha, List.append_nil] at hc)
    · exact h.front c (by rwa [List.getLast?_append_of_ne_nil b ha] at hc)
  behind c hc := by
    by_cases hr : r = []
    · exact hbehind hr c (by rwa [hr] at hc)
    · exact h.behind c (by rwa [List.head?_append_of_ne_nil r hr] at hc)

/-- Nothing stands behind an identifier where only a sign could stand in front of it. -/
theorem eq_nil_of_last (hne : u ≠ []) (hu : ∀ c ∈ u, isIdentifierChar c = true)
    (h : t ≠ [] → ∀ c, (a ++ u).getLast? = some c → isIdentifierChar c = false) : t = [] := by
  by_contra ht
  have hsign := h ht (u.getLast hne) (by
    rw [List.getLast?_append_of_ne_nil a hne, List.getLast?_eq_some_getLast hne])
  exact absurd (hu _ (List.getLast_mem hne)) (by simp [hsign])

/-- An identifier that is the word where it ends at the top level stands there. -/
theorem standsBetween_of_closes_pos
    (hfront : ∀ c, a.getLast? = some c → isIdentifierChar c = false)
    (hbehind : ∀ c, r.head? = some c → isIdentifierChar c = false)
    (hu : ∀ c ∈ u, isIdentifierChar c = true)
    (h : 0 < closes w (nestingAfter .top (a ++ u)) u.asciiUpper) : StandsBetween w a u r := by
  have hidle : nestingAfter .top (a ++ u) = nestingAfter .top a := by
    rw [nestingAfter_append]
    exact nestingAfter_of_idle (isClosing_nestingAfter isClosing_none a)
      fun c hc => isIdle_of_isIdentifierChar (hu c hc)
  rw [hidle, closes] at h
  split at h
  · next hends =>
    obtain ⟨htop, hword⟩ := Bool.and_eq_true_iff.1 hends
    exact ⟨eq_of_beq hword, Nesting.eq_top_of_isTop htop, hfront, hbehind⟩
  · exact absurd h (Nat.lt_irrefl 0)

/-- A word that is counted behind the beginning `u` of an identifier is this one, or stands further
on. -/
theorem exists_of_censusFrom_pos (hfront : ∀ c, a.getLast? = some c → isIdentifierChar c = false)
    (hu : ∀ c ∈ u, isIdentifierChar c = true)
    (h : 0 < censusFrom w (nestingAfter .top (a ++ u)) u.asciiUpper t) :
    ∃ x v r, a ++ (u ++ t) = x ++ (v ++ r) ∧ (∀ c ∈ v, isIdentifierChar c = true) ∧
      StandsBetween w x v r := by
  induction t generalizing a u with
  | nil =>
    rw [censusFrom, passed, Nat.zero_add] at h
    exact ⟨a, u, [], rfl, hu, standsBetween_of_closes_pos hfront (by simp) hu h⟩
  | cons c t ih =>
    have hread : (nestingAfter .top (a ++ u)).read c = nestingAfter .top (a ++ (u ++ [c])) := by
      rw [← List.append_assoc, nestingAfter_append _ (a ++ u)]
      rfl
    cases hc : isIdentifierChar c with
    | true =>
      have hupper : u.asciiUpper ++ [c.toUpper] = (u ++ [c]).asciiUpper := by
        rw [asciiUpper, asciiUpper, List.map_append]
        rfl
      rw [censusFrom_cons_char hc, hread, hupper] at h
      have hlonger : ∀ x ∈ u ++ [c], isIdentifierChar x = true :=
        List.forall_mem_append.2 ⟨hu, List.forall_mem_singleton.2 hc⟩
      rw [List.append_cons u c t]
      exact ih hfront hlonger h
    | false =>
      rw [censusFrom_cons_sign hc, hread] at h
      rcases Nat.add_pos_iff_pos_or_pos.1 h with hcloses | hlater
      · have hsign : ∀ x, (c :: t).head? = some x → isIdentifierChar x = false := fun x hx =>
          Option.some.inj hx ▸ hc
        exact ⟨a, u, c :: t, rfl, hu, standsBetween_of_closes_pos hfront hsign hu hcloses⟩
      · have hlast : ∀ x, (a ++ (u ++ [c])).getLast? = some x → isIdentifierChar x = false := by
          intro x hx
          rw [← List.append_assoc, List.getLast?_concat] at hx
          exact Option.some.inj hx ▸ hc
        obtain ⟨x, v, r, htext, hv, hstands⟩ := ih (u := []) hlast (by simp)
          (by rwa [List.append_nil])
        exact ⟨x, v, r, by rw [← htext]; simp, hv, hstands⟩

/-- **A counted word has a place.** -/
theorem exists_of_census_pos (h : 0 < census w t) :
    ∃ a u r, t = a ++ (u ++ r) ∧ (∀ c ∈ u, isIdentifierChar c = true) ∧ StandsBetween w a u r :=
  exists_of_censusFrom_pos (a := []) (u := []) (by simp) (by simp) h

end Text

variable {w front rest a : Text} {s : Stretch} {ss : List Stretch}

/-- A word that is counted in the body of a stretch stands in the text, and there no keyword of a
later clause is found. -/
theorem Stretch.Stands.exists_unopened (hw : w ≠ []) (hidle : ∀ c ∈ s.keyword, isIdle c = true)
    (h : s.Stands (front ++ (s.text ++ rest)) front) (hkind : s.kind ≠ .leading)
    (hrest : rest ≠ [] → ∀ c, (front ++ s.text).getLast? = some c → isIdentifierChar c = false)
    (hpos : 0 < Text.census w s.body) :
    ∃ a u r, front ++ (s.text ++ rest) = a ++ (u ++ r) ∧ Text.StandsBetween w a u r ∧
      ∀ k : ClauseKind, s.kind.rank < k.rank →
      k.keyword.length? (lastOf none a) (u ++ r) = none := by
  obtain ⟨x, u, r, hbody, hu, hstands⟩ := Text.exists_of_census_pos hpos
  have hne : u ≠ [] := hstands.ne_nil hw
  obtain ⟨-, d, v, hbehind, hsign, -⟩ := h.exists_behind hkind
  have hlevel : nestingAfter .top (front ++ s.keyword) = .top := by
    rw [nestingAfter_append, h.level]
    exact Text.nestingAfter_of_idle Text.isClosing_none hidle
  have htext : front ++ (s.text ++ rest) = front ++ s.keyword ++ x ++ (u ++ (r ++ rest)) := by
    rw [Stretch.text, hbody]
    simp only [List.append_assoc]
  refine ⟨front ++ s.keyword ++ x, u, r ++ rest, htext, hstands.within hlevel ?_ ?_, fun k hk => ?_⟩
  · -- a sign stands behind the keyword
    rintro rfl
    obtain ⟨c, u, rfl⟩ := List.exists_cons_of_ne_nil hne
    rw [hbody] at hbehind
    obtain ⟨rfl, -⟩ := List.cons.inj hbehind
    exact absurd (hu c List.mem_cons_self) (by simp [hsign])
  · -- and in front of the next one
    rintro rfl
    have hend : front ++ s.text = front ++ s.keyword ++ x ++ u := by
      rw [Stretch.text, hbody, List.append_nil]
      simp only [List.append_assoc]
    obtain rfl := Text.eq_nil_of_last hne hu (hend ▸ hrest)
    simp
  · have hnone := h.unopened x (u ++ r) k hbody (by simp [hne]) hk
      (by rw [← List.append_assoc, nestingAfter_append, hlevel, hstands.level])
    rwa [htext, ← List.append_assoc front, Keyword.lengthAt?_append] at hnone

namespace Outline

/-- No identifier runs into a row of stretches. -/
theorem Row.isIdentifierChar_last (h : Row a ss) (hne : Stretch.textOf ss ≠ []) :
    ∀ c, a.getLast? = some c → isIdentifierChar c = false := by
  cases ss with
  | nil => exact absurd rfl hne
  | cons s ss => exact (h.first.exists_behind (h.keywords s List.mem_cons_self).1).1

/-- The same in a row of stretches. -/
theorem Row.exists_unopened (hw : w ≠ []) (h : Row a ss) (hs : s ∈ ss)
    (hpos : 0 < Text.census w s.body) :
    ∃ x u r, a ++ Stretch.textOf ss = x ++ (u ++ r) ∧ Text.StandsBetween w x u r ∧
      ∀ k : ClauseKind, s.kind.rank < k.rank →
        k.keyword.length? (lastOf none x) (u ++ r) = none := by
  induction ss generalizing a with
  | nil => exact absurd hs List.not_mem_nil
  | cons s' ss ih =>
    have htext : a ++ Stretch.textOf (s' :: ss) = a ++ (s'.text ++ Stretch.textOf ss) := by
      rw [Stretch.textOf, List.flatMap_cons, Stretch.textOf]
    rcases List.mem_cons.1 hs with rfl | hs
    · obtain ⟨hkind, hidle⟩ := h.keywords s List.mem_cons_self
      rw [htext]
      exact h.first.exists_unopened hw hidle hkind h.rest.isIdentifierChar_last hpos
    · obtain ⟨x, u, r, hx, hrest⟩ := ih h.rest hs
      exact ⟨x, u, r, by rw [htext, ← hx, List.append_assoc], hrest⟩

/-- **A word that opens no clause.** Where a word is counted in a statement, all of whose clauses
are earlier than `k` and written without it, it stands at a place where the keyword of `k` is not
found. -/
theorem exists_unopened (hw : w ≠ []) {k : ClauseKind} {sql : Text}
    (hclauses : ∀ c ∈ (scan sql).clauses, c.kind.rank < k.rank ∧ Text.census w c.kind.word = 0)
    (hpos : 0 < Text.census w sql) :
    ∃ a u r, bodyOf sql = a ++ (u ++ r) ∧ Text.StandsBetween w a u r ∧
      k.keyword.length? (lastOf none a) (u ++ r) = none := by
  rw [← (census_scan hw sql).1, List.sum_pos_iff_exists_pos_nat] at hpos
  obtain ⟨_, hx, hcpos⟩ := hpos
  obtain ⟨c, hc, rfl⟩ := List.mem_map.1 hx
  rw [clauseCensus, (hclauses c hc).2, Nat.zero_add] at hcpos
  obtain ⟨b, ss, htext, hpass, hsplit, hkinds, hstands⟩ :=
    Stretch.exists_of_split .leading [] (bodyOf sql) rfl
  simp only [List.nil_append, lastOf_nil] at hsplit hstands
  have hlt := (hclauses c hc).1
  have hmem : c = ⟨.leading, Text.trim b⟩ ∨ ∃ s ∈ ss, c = ⟨s.kind, Text.trim s.body⟩ := by
    rw [scan_clauses, clausesOf, hsplit] at hc
    split at hc
    · obtain ⟨s, hs, rfl⟩ := List.mem_map.1 hc
      exact .inr ⟨s, hs, rfl⟩
    · rcases List.mem_cons.1 hc with rfl | hc
      · exact .inl rfl
      · obtain ⟨s, hs, rfl⟩ := List.mem_map.1 hc
        exact .inr ⟨s, hs, rfl⟩
  rw [htext] at hstands ⊢
  have hrow : Row b ss := ⟨hkinds, hstands⟩
  rcases hmem with rfl | ⟨s, hs, rfl⟩
  · rw [Text.census_trim hw] at hcpos
    obtain ⟨a, u, r, rfl, hu, hat⟩ := Text.exists_of_census_pos hcpos
    have hne : u ≠ [] := hat.ne_nil hw
    have hcut : a ++ (u ++ r) ++ Stretch.textOf ss = a ++ (u ++ (r ++ Stretch.textOf ss)) := by
      simp only [List.append_assoc]
    refine ⟨a, u, r ++ Stretch.textOf ss, hcut, hat.within (b := []) rfl (by simp) ?_, ?_⟩
    · rintro rfl
      rw [List.append_nil] at hrow
      rw [Text.eq_nil_of_last hne hu hrow.isIdentifierChar_last]
      simp
    · have hnone := Stretch.unopened_of_passes hpass (a := []) rfl rfl (by simp [hne]) hlt hat.level
      rwa [List.nil_append, List.nil_append, hcut, Keyword.lengthAt?_append] at hnone
  · obtain ⟨a, u, r, ha, hat, hnone⟩ :=
      hrow.exists_unopened hw hs (by rwa [Text.census_trim hw] at hcpos)
    exact ⟨a, u, r, ha, hat, hnone k hlt⟩

end Outline

end SqlScribe
