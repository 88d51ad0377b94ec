import Mathlib.Algebra.Group.Nat.Even
import SqlScribe.Proofs.Expression.Basic

/-!
# Where a list of arguments is cut

A list of arguments is cut at its commas outside quotations, told by the number of quotes in front
of them, and nowhere else. Main statements:

* `join_cutUnquoted`, `joints_cutUnquoted`: the pieces make up the list, and where they meet;
* `even_count_of_joints`: pieces that meet outside quotations hold whole quotations;
* `arguments_cut`: the arguments of any list.
-/

namespace SqlScribe

namespace Text

variable {c : Char} {quoted : Bool} {ps : List Text} {t : Text} {i : Nat}

/-! ## Commas outside quotations -/

/-- At position `i` there is a comma with an even number of quotes in front of it. A quotation that
the text begins in counts as one more. -/
def OpenCommaAt (quoted : Bool) (t : Text) (i : Nat) : Prop :=
  t[i]? = some ',' ∧ Even ((t.take i).count '\'' + quoted.toNat)

instance (quoted : Bool) (t : Text) (i : Nat) : Decidable (OpenCommaAt quoted t i) :=
  inferInstanceAs (Decidable (_ ∧ _))

/-- The positions of the commas outside quotations, in order. -/
def openCommas (quoted : Bool) (t : Text) : List Nat :=
  (List.range t.length).filter fun i => OpenCommaAt quoted t i

theorem mem_openCommas : i ∈ openCommas quoted t ↔ OpenCommaAt quoted t i := by
  rw [openCommas, List.mem_filter, decide_eq_true_iff, and_iff_right_iff_imp]
  rintro ⟨hcomma, -⟩
  exact List.mem_range.2 (List.getElem?_eq_some_iff.1 hcomma).1

/-- Whether a quotation is open behind the character. -/
def quotedBehind (quoted : Bool) (c : Char) : Bool := if c == '\'' then !quoted else quoted

theorem openCommaAt_zero_iff : OpenCommaAt quoted (c :: t) 0 ↔ c = ',' ∧ quoted = false := by
  cases quoted <;> simp [OpenCommaAt]

theorem openCommaAt_succ_iff :
    OpenCommaAt quoted (c :: t) (i + 1) ↔ OpenCommaAt (quotedBehind quoted c) t i := by
  rw [OpenCommaAt, OpenCommaAt, List.getElem?_cons_succ, List.take_succ_cons, List.count_cons,
    quotedBehind]
  refine and_congr_right fun _ => ?_
  split
  · cases quoted <;> simp [Nat.even_add_one]
  · rw [Nat.add_zero]

theorem openCommas_cons (quoted : Bool) (c : Char) (t : Text) : openCommas quoted (c :: t) =
    (if c = ',' ∧ quoted = false then [0] else []) ++
      (openCommas (quotedBehind quoted c) t).map (· + 1) := by
  have hrest : ((fun i => decide (OpenCommaAt quoted (c :: t) i)) ∘ Nat.succ) =
      fun i => decide (OpenCommaAt (quotedBehind quoted c) t i) := by
    funext i
    exact decide_eq_decide.2 openCommaAt_succ_iff
  rw [openCommas, List.length_cons, List.range_succ_eq_map, List.filter_cons, List.filter_map,
    hrest]
  simp only [decide_eq_true_iff, openCommaAt_zero_iff]
  split <;> rfl

/-! ## Joints -/

/-- The positions of the separators between pieces that are joined by one character. -/
def joints : List Text → List Nat
  | [] | [_] => []
  | s :: ss => s.length :: (joints ss).map (· + (s.length + 1))

theorem joints_cons (s : Text) (hne : ps ≠ []) :
    joints (s :: ps) = s.length :: (joints ps).map (· + (s.length + 1)) := by
  obtain ⟨p, ps, rfl⟩ := List.exists_cons_of_ne_nil hne
  rfl

theorem length_joints (hne : ps ≠ []) : (joints ps).length + 1 = ps.length := by
  induction ps with
  | nil => exact absurd rfl hne
  | cons p ps ih =>
    by_cases hnil : ps = []
    · rw [hnil]
      rfl
    · rw [joints_cons p hnil, List.length_cons, List.length_map, ih hnil, List.length_cons]

/-- A character in front of the first piece moves the joints by one. -/
theorem joints_glue (c : Char) (hne : ps ≠ []) :
    joints (glue [c] ps) = (joints ps).map (· + 1) := by
  obtain ⟨p, ps, rfl⟩ := List.exists_cons_of_ne_nil hne
  by_cases hnil : ps = []
  · rw [hnil]
    rfl
  · rw [glue, joints_cons _ hnil, joints_cons p hnil, List.map_cons, List.map_map]
    rfl

theorem join_glue (sep s : Text) (hne : ps ≠ []) : join sep (glue s ps) = s ++ join sep ps := by
  obtain ⟨p, ps, rfl⟩ := List.exists_cons_of_ne_nil hne
  by_cases hnil : ps = []
  · rw [hnil]
    rfl
  · rw [glue, join_cons _ _ hnil, join_cons _ _ hnil]
    simp only [List.append_assoc]

/-! ## The cut -/

theorem cutUnquoted_of_not_comma (hc : ¬ (c = ',' ∧ quoted = false)) (t : Text) :
    cutUnquoted quoted (c :: t) = glue [c] (cutUnquoted (quotedBehind quoted c) t) := by
  obtain ⟨s, ss, hs⟩ := List.exists_cons_of_ne_nil (cutUnquoted_ne_nil (quotedBehind quoted c) t)
  rw [cutUnquoted, if_neg (by simpa using hc), ← quotedBehind, hs]
  rfl

/-- The pieces make up the text. -/
theorem join_cutUnquoted (quoted : Bool) (t : Text) : join [','] (cutUnquoted quoted t) = t := by
  induction t generalizing quoted with
  | nil => rfl
  | cons c t ih =>
    by_cases hc : c = ',' ∧ quoted = false
    · obtain ⟨rfl, rfl⟩ := hc
      show join [','] ([] :: cutUnquoted false t) = ',' :: t
      rw [join_cons _ _ (cutUnquoted_ne_nil false t), ih]
      rfl
    · rw [cutUnquoted_of_not_comma hc, join_glue _ _ (cutUnquoted_ne_nil _ t), ih,
        List.singleton_append]

/-- The pieces meet at the commas outside quotations. -/
theorem joints_cutUnquoted (quoted : Bool) (t : Text) :
    joints (cutUnquoted quoted t) = openCommas quoted t := by
  induction t generalizing quoted with
  | nil => rfl
  | cons c t ih =>
    rw [openCommas_cons]
    by_cases hc : c = ',' ∧ quoted = false
    · rw [if_pos hc]
      obtain ⟨rfl, rfl⟩ := hc
      show joints ([] :: cutUnquoted false t) = _
      rw [joints_cons _ (cutUnquoted_ne_nil false t), ih]
      rfl
    · rw [if_neg hc, cutUnquoted_of_not_comma hc, joints_glue c (cutUnquoted_ne_nil _ t), ih,
        List.nil_append]

/-! ## Whole quotations -/

/-- The quotes in front of a joint behind the first piece are those of the piece and of what
follows. -/
theorem count_take_joint (s u : Text) (i : Nat) :
    ((s ++ [','] ++ u).take (i + (s.length + 1))).count '\''
      = s.count '\'' + (u.take i).count '\'' := by
  have hlength : i + (s.length + 1) = (s ++ [',']).length + i := by
    rw [List.length_append, List.length_singleton, Nat.add_comm]
  rw [hlength, List.take_length_add_append, List.count_append, List.count_append]
  rfl

/-- If all joints have an even number of quotes in front of them, every piece but the last one has
an even number, and the last one has if the whole text has. -/
theorem even_count_of_joints (ps : List Text)
    (h : ∀ i ∈ joints ps, Even (((join [','] ps).take i).count '\'')) :
    (∀ p ∈ ps.dropLast, Even (p.count '\'')) ∧
      (Even ((join [','] ps).count '\'') → ∀ p ∈ ps, Even (p.count '\'')) := by
  induction ps with
  | nil => simp
  | cons p ps ih =>
    by_cases hnil : ps = []
    · subst hnil
      simp [join]
    · rw [join_cons _ _ hnil] at h ⊢
      rw [joints_cons p hnil] at h
      have hp : Even (p.count '\'') := by
        have hfirst := h p.length List.mem_cons_self
        rwa [List.append_assoc, List.take_left] at hfirst
      have hrest : ∀ i ∈ joints ps, Even (((join [','] ps).take i).count '\'') := by
        intro i hi
        have hlater := h _ (List.mem_cons_of_mem _ (List.mem_map_of_mem hi))
        rw [count_take_joint] at hlater
        exact (Nat.even_add.1 hlater).1 hp
      obtain ⟨hfront, hall⟩ := ih hrest
      refine ⟨?_, fun heven => ?_⟩
      · rw [List.dropLast_cons_of_ne_nil hnil]
        exact List.forall_mem_cons.2 ⟨hp, hfront⟩
      · rw [List.append_assoc, List.count_append] at heven
        exact List.forall_mem_cons.2 ⟨hp, hall ((Nat.even_add.1 heven).1 hp)⟩

/-- Trimming drops nothing but blanks. -/
theorem count_trim (hc : isBlank c = false) (t : Text) : (trim t).count c = t.count c := by
  obtain ⟨u, e, ht, hu, he⟩ := exists_trim t
  have hnone : ∀ {v : Text}, (∀ d ∈ v, isBlank d = true) → v.count c = 0 := fun hv =>
    List.count_eq_zero.2 fun hmem => Bool.false_ne_true (hc.symm.trans (hv c hmem))
  conv_rhs => rw [ht]
  rw [List.count_append, List.count_append, hnone hu, hnone he, Nat.zero_add, Nat.add_zero]

/-- **Where a list of arguments is cut.** There is one argument more than there are commas with an
even number of quotes in front of them. The list is made up of pieces that meet at these commas, and
the arguments are the pieces without the blanks around them. No argument but the last one is cut off
inside a quotation, and that one is not if the list has an even number of quotes. -/
theorem arguments_cut (t : Text) :
    (arguments t).length = (openCommas false t).length + 1 ∧
    (∃ ps, join [','] ps = t ∧ joints ps = openCommas false t ∧ arguments t = ps.map trim) ∧
    (∀ a ∈ (arguments t).dropLast, Even (a.count '\'')) ∧
    (Even (t.count '\'') → ∀ a ∈ arguments t, Even (a.count '\'')) := by
  have hjoin := join_cutUnquoted false t
  have hjoints := joints_cutUnquoted false t
  have hcount : ∀ p : Text, (trim p).count '\'' = p.count '\'' := count_trim (by decide)
  obtain ⟨hfront, hall⟩ := even_count_of_joints (cutUnquoted false t) fun i hi => by
    rw [hjoints, mem_openCommas] at hi
    rw [hjoin]
    exact hi.2
  refine ⟨?_, ⟨_, hjoin, hjoints, rfl⟩, fun a ha => ?_, fun heven a ha => ?_⟩
  · rw [arguments, List.length_map, ← hjoints, length_joints (cutUnquoted_ne_nil false t)]
  · rw [arguments, ← List.map_dropLast] at ha
    obtain ⟨p, hp, rfl⟩ := List.mem_map.1 ha
    rw [hcount]
    exact hfront p hp
  · obtain ⟨p, hp, rfl⟩ := List.mem_map.1 ha
    rw [hcount]
    exact hall (hjoin.symm ▸ heven) p hp

/-- A comma in a literal with a doubled quote, an empty argument, and a literal that is not
closed. -/
theorem arguments_cut_literals :
    (arguments "a , 'it''s, so',,'b" = ["a".toList, "'it''s, so'".toList, [], "'b".toList] ∧
      openCommas false "a , 'it''s, so',,'b" = [2, 15, 16]) ∧
    ("'it''s, so'".toList ∈ (arguments "a , 'it''s, so',,'b").dropLast ∧
      Even ("'it''s, so'".toList.count '\'')) ∧
    Even ("x, 'y,'".toList.count '\'') ∧ Even ("'y,'".toList.count '\'') := by
  have hlist : arguments "a , 'it''s, so',,'b"
      = ["a".toList, "'it''s, so'".toList, [], "'b".toList] := by
    decide
  have hmem : "'it''s, so'".toList ∈ (arguments "a , 'it''s, so',,'b").dropLast := by decide
  have heven : Even ("x, 'y,'".toList.count '\'') := by decide
  exact ⟨⟨hlist, by decide⟩, ⟨hmem, (arguments_cut _).2.2.1 _ hmem⟩, heven,
    (arguments_cut "x, 'y,'").2.2.2 heven _ (by decide)⟩

end Text

end SqlScribe
