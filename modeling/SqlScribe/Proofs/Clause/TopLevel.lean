import SqlScribe.Proofs.Clause.Balance
import SqlScribe.Proofs.Clause.Cutting
import SqlScribe.Proofs.Clause.Stability

/-!
# Cutting at the top level

The scanner cuts a text into stretches, each a keyword and the body behind it. Every keyword stands
outside of quotations and parentheses and is found there, and in no body the keyword of a later
clause is found at such a place. So what belongs together stays together: all bodies are balanced
when the text is. Main statements:

* `Stretch.exists_of_split`: the stretches behind a place of a text;
* `Stretch.balanced_textOf`: stretches make a balanced text when their bodies are balanced;
* `scan_cuts_top`: the clauses of a statement are cut exactly at the top level.
-/

namespace SqlScribe

open Outline

namespace Keyword

/-- What a keyword looks at, at a place of a text: the character in front and the text behind. -/
theorem lengthAt?_append (k : Keyword) (a v : Text) :
    k.lengthAt? (a ++ v) a.length = k.length? (lastOf none a) v := by
  rw [lengthAt?, List.drop_left, lastOf, Option.or_none]
  congr 1
  rcases List.eq_nil_or_concat a with rfl | ⟨u, c, rfl⟩
  · rfl
  · rw [List.concat_eq_append, if_neg (by simp), List.getLast?_concat]
    simp

end Keyword

/-- Where the keyword of a later clause is found, a clause opens. -/
theorem Outline.opens?_ne_none_of_length? {k kind : ClauseKind} {before : Option Char} {t : Text}
    {m : Nat} (hlt : k.rank < kind.rank) (h : kind.keyword.length? before t = some m) :
    opens? k before t ≠ none := by
  obtain ⟨hstart, d, r, hafter, hacc, -⟩ := Keyword.length?_eq_some_iff.1 h
  rw [ClauseKind.keyword_word] at hafter
  exact opens?_ne_none hlt hstart hafter hacc

/-- At no place of a text that is passed over a clause opens. -/
theorem Outline.Passes.at {k : ClauseKind} {n : Nesting} {before : Option Char} {u v rest : Text}
    {c : Char} (h : Passes k n before (u ++ c :: v) rest)
    (htop : ((nestingAfter n u).read c).isTop = true)
    (hclosing : (nestingAfter n u).closing = none) :
    opens? k (lastOf before u) (c :: (v ++ rest)) = none := by
  induction u generalizing n before with
  | nil => exact h.1 htop hclosing
  | cons d u ih =>
    rw [lastOf_cons]
    exact ih h.2 htop hclosing

/-- Where a clause opens the body ends, and behind the keyword the body of that clause begins. -/
theorem Outline.split_keyword {k kind : ClauseKind} {before : Option Char} {w v : Text}
    (h : opens? k before (w ++ v) = some (kind, w.length)) :
    Outline.split k .top before 0 (w ++ v) =
      ([], ⟨kind, Text.trim (Outline.split kind .top (lastOf before w) 0 v).1⟩ ::
        (Outline.split kind .top (lastOf before w) 0 v).2) := by
  obtain ⟨-, -, w', d, r, -, hlength, hne, -⟩ := exists_of_opens? h
  cases w with
  | nil => exact absurd (List.eq_nil_of_length_eq_zero hlength) hne
  | cons c w =>
    obtain ⟨c', r', hcut, hc⟩ := head_of_opens? h
    obtain ⟨rfl, -⟩ := List.cons.inj hcut
    have hread : Nesting.top.read c = .top := read_of_isIdentifierChar hc 0
    rw [List.cons_append] at h ⊢
    rw [split_opening (by rw [hread]; rfl) rfl h, hread, List.length_cons, Nat.add_sub_cancel,
      split_skip, lastOf_cons]
    rfl

/-- Where a clause opens its keyword is found. -/
theorem Outline.length?_of_opens? {k kind : ClauseKind} {before : Option Char} {t : Text} {m : Nat}
    (h : opens? k before t = some (kind, m)) : kind.keyword.length? before t = some m := by
  obtain ⟨-, hstart, w, d, r, rfl, rfl, -, -, hafter, hacc⟩ := exists_of_opens? h
  rw [Keyword.length?_eq_some_iff, ClauseKind.keyword_word]
  exact ⟨hstart, d, r, hafter, hacc, by rw [List.length_append, Nat.add_sub_cancel]⟩

/-- A part of a text: the keyword of a clause as it stands there, and what stands behind it. -/
structure Stretch where
  kind : ClauseKind
  keyword : Text
  body : Text

namespace Stretch

def text (s : Stretch) : Text := s.keyword ++ s.body

/-- The text that stretches make one behind the other. -/
def textOf (ss : List Stretch) : Text := ss.flatMap text

/-- The clause of a stretch. There is no leading clause without a body. -/
def clauses (s : Stretch) : List Clause := Cutter.closed s.kind s.body

/-- The stretch stands in the text `t` behind `front`, cut at the top level: there its keyword is
found, and at no place of its body that is outside of quotations and parentheses the keyword of a
later clause is found. In front of the first keyword none is written. -/
structure Stands (t front : Text) (s : Stretch) : Prop where
  level : nestingAfter .top front = .top
  silent : s.kind = .leading → s.keyword = []
  found : s.kind ≠ .leading → s.kind.keyword.lengthAt? t front.length = some s.keyword.length
  unopened : ∀ (u v : Text) (k : ClauseKind), s.body = u ++ v → v ≠ [] → s.kind.rank < k.rank →
    nestingAfter .top (front ++ (s.keyword ++ u)) = .top →
      k.keyword.lengthAt? t (front ++ (s.keyword ++ u)).length = none

/-- What is passed over holds no keyword of a later clause at the top level. -/
theorem unopened_of_passes {k j : ClauseKind} {a b u v rest : Text}
    (h : Passes k .top (lastOf none a) b rest) (hlevel : nestingAfter .top a = .top)
    (hb : b = u ++ v) (hv : v ≠ []) (hlt : k.rank < j.rank)
    (htop : nestingAfter .top (a ++ u) = .top) :
    j.keyword.lengthAt? (a ++ (b ++ rest)) (a ++ u).length = none := by
  subst hb
  obtain ⟨c, v, rfl⟩ := List.exists_cons_of_ne_nil hv
  have hafter : nestingAfter .top u = .top := by rwa [nestingAfter_append, hlevel] at htop
  rw [List.append_assoc u, ← List.append_assoc a, Keyword.lengthAt?_append]
  by_contra hne
  obtain ⟨m, hm⟩ := Option.ne_none_iff_exists'.1 hne
  have hopens := opens?_ne_none_of_length? hlt hm
  obtain ⟨x, hx⟩ := Option.ne_none_iff_exists'.1 hopens
  obtain ⟨d, r, hcut, hd⟩ := head_of_opens? hx
  obtain ⟨rfl, -⟩ := List.cons.inj hcut
  have hread : Nesting.top.read c = .top := read_of_isIdentifierChar hd 0
  refine hopens ?_
  rw [lastOf_append]
  exact h.at (by rw [hafter, hread]; rfl) (by rw [hafter]; rfl)

/-- **The stretches behind a place.** What is read from a place outside of quotations and
parentheses is the rest of the body there, and stretches that stand behind it. -/
theorem exists_of_split (k : ClauseKind) (a v : Text) (hlevel : nestingAfter .top a = .top) :
    ∃ b ss, v = b ++ textOf ss ∧ Passes k .top (lastOf none a) b (textOf ss) ∧
      Outline.split k .top (lastOf none a) 0 v
        = (b, ss.map fun s => ⟨s.kind, Text.trim s.body⟩) ∧
      (∀ s ∈ ss, s.kind ≠ .leading ∧ ∀ c ∈ s.keyword, isIdle c = true) ∧
      ∀ xs s ys, ss = xs ++ s :: ys →
        s.Stands (a ++ v) (a ++ (b ++ textOf xs)) := by
  rcases split_cases k .top (lastOf none a) v with
    hpass | ⟨u, v', kind, length, hv, hpass, hclosing, htop, hopens⟩
  · refine ⟨v, [], by simp [textOf], hpass, hpass.split_nil, by simp, fun xs s ys h => ?_⟩
    exact absurd h (by simp)
  · obtain ⟨hlt, -, w, d, r, rfl, rfl, hne, hw, -, -⟩ := exists_of_opens? hopens
    obtain ⟨c, r', hcut, hc⟩ := head_of_opens? hopens
    have hu := Nesting.eq_top_of_read hc hclosing (htop c (by rw [hcut]; rfl))
    have hidle : ∀ x ∈ w, isIdle x = true := fun x hx =>
      (hw x hx).elim isIdle_of_isIdentifierChar isIdle_of_isBlank
    have hfront : nestingAfter .top (a ++ u) = .top := by rw [nestingAfter_append, hlevel, hu]
    have hbehind : nestingAfter .top (a ++ u ++ w) = .top := by
      rw [nestingAfter_append, hfront]
      exact nestingAfter_of_nestingAfter? (nestingAfter?_of_isIdle Text.isClosing_none hidle)
    have hkind : kind ≠ .leading := by
      rintro rfl
      exact absurd hlt (Nat.not_lt_zero _)
    obtain ⟨b, ss, hr, hpassed, hsplit, hkinds, hstands⟩ :=
      exists_of_split kind (a ++ u ++ w) (d :: r) hbehind
    subst hv
    have htext : textOf (⟨kind, w, b⟩ :: ss) = w ++ d :: r := by
      rw [hr, textOf, List.flatMap_cons, text, List.append_assoc]
      rfl
    rw [← lastOf_append] at hopens
    refine ⟨u, ⟨kind, w, b⟩ :: ss, by rw [htext], by rwa [htext], ?_, ?_, fun xs s ys hcut => ?_⟩
    · rw [hpass.split, hu, ← lastOf_append, split_keyword hopens, ← lastOf_append, hsplit]
      simp [putFront]
    · exact List.forall_mem_cons.2 ⟨⟨hkind, hidle⟩, hkinds⟩
    · cases xs with
      | nil =>
        obtain ⟨rfl, rfl⟩ := List.cons.inj hcut
        have hstand : Stands (a ++ u ++ (w ++ d :: r)) (a ++ u) ⟨kind, w, b⟩ := by
          refine ⟨hfront, fun h => absurd h hkind, fun _ => ?_, fun x y j hb hy hlt' htop' => ?_⟩
          · rw [Keyword.lengthAt?_append]
            exact length?_of_opens? hopens
          · rw [← List.append_assoc (a ++ u) w x] at htop'
            have hnone := unopened_of_passes hpassed hbehind hb hy hlt' htop'
            rwa [← hr, List.append_assoc (a ++ u) w, List.append_assoc (a ++ u) w] at hnone
        simpa only [List.append_assoc, textOf, List.flatMap_nil, List.append_nil] using hstand
      | cons x xs =>
        obtain ⟨rfl, rfl⟩ := List.cons.inj hcut
        have hlater := hstands xs s ys rfl
        simpa only [textOf, List.flatMap_cons, text, List.append_assoc] using hlater
termination_by v.length
decreasing_by
  have hlength := congrArg List.length hv
  simp only [List.length_append, List.length_cons] at hlength ⊢
  have hpos := List.length_pos_of_ne_nil hne
  omega

/-- Stretches that stand at the top level make a balanced text when all their bodies are
balanced. -/
theorem balanced_textOf {ss : List Stretch} (hkeyword : ∀ s ∈ ss, ∀ c ∈ s.keyword, isIdle c = true)
    (hlevel : ∀ xs s ys, ss = xs ++ s :: ys → nestingAfter .top (textOf xs) = .top) :
    Balanced (textOf ss) ↔ ∀ s ∈ ss, Balanced s.body := by
  induction ss with
  | nil => simp [textOf, Balanced.nil]
  | cons s ss ih =>
    rw [List.forall_mem_cons] at hkeyword ⊢
    have htext : textOf (s :: ss) = s.text ++ textOf ss := List.flatMap_cons
    have hbody : Balanced s.text ↔ Balanced s.body := balanced_idle_append hkeyword.1
    cases ss with
    | nil =>
      rw [htext, textOf, List.flatMap_nil, List.append_nil, hbody]
      simp
    | cons s' ss =>
      have hfirst : nestingAfter .top s.text = .top := by
        have hlevel := hlevel [s] s' ss rfl
        rwa [textOf, List.flatMap_singleton] at hlevel
      rw [htext, balanced_append_iff hfirst, hbody, ih hkeyword.2 fun xs x ys hcut => ?_]
      have hlevel := hlevel (s :: xs) x ys (by rw [hcut, List.cons_append])
      rwa [textOf, List.flatMap_cons, nestingAfter_append, hfirst] at hlevel

/-- The clause of a stretch has its body, without the blanks around it. -/
theorem balanced_clauses (s : Stretch) : (∀ c ∈ s.clauses, Balanced c.body) ↔ Balanced s.body := by
  rw [clauses, Cutter.closed, ← balanced_trim]
  split
  · next h => simp [h.2, Balanced.nil]
  · simp

end Stretch

/-- **Clauses are cut exactly at the top level.** A statement is balanced when the bodies of all
its clauses are. They are the bodies of stretches that make up the statement, each keyword
outside of quotations and parentheses, and at no such place of a body the keyword of a later
clause is found in the statement. -/
theorem scan_cuts_top (sql : Text) :
    (Balanced sql ↔ ∀ c ∈ (scan sql).clauses, Balanced c.body) ∧
    ∃ ss : List Stretch, Stretch.textOf ss = bodyOf sql ∧
      ss.flatMap Stretch.clauses = (scan sql).clauses ∧
      ∀ xs s ys, ss = xs ++ s :: ys → s.Stands (bodyOf sql) (Stretch.textOf xs) := by
  obtain ⟨b, ss, htext, hpass, hsplit, hkinds, hstands⟩ :=
    Stretch.exists_of_split .leading [] (bodyOf sql) rfl
  rw [List.nil_append] at hstands
  have hall : Stretch.textOf (⟨.leading, [], b⟩ :: ss) = bodyOf sql := htext.symm
  have hclauses : (⟨.leading, [], b⟩ :: ss : List Stretch).flatMap Stretch.clauses
      = (scan sql).clauses := by
    have hlater : ss.flatMap Stretch.clauses = ss.map fun s => ⟨s.kind, Text.trim s.body⟩ := by
      rw [List.map_eq_flatMap]
      exact List.flatMap_congr fun s hs => Cutter.closed_of_ne_leading (hkinds s hs).1 s.body
    rw [lastOf_nil] at hsplit
    rw [List.flatMap_cons, hlater, scan_clauses, clausesOf, hsplit, Stretch.clauses, Cutter.closed]
    simp only [true_and, List.isEmpty_iff]
    split <;> rfl
  have hstand : ∀ xs s ys, (⟨.leading, [], b⟩ :: ss : List Stretch) = xs ++ s :: ys →
      s.Stands (bodyOf sql) (Stretch.textOf xs) := by
    rintro (_ | ⟨x, xs⟩) s ys hcut
    · obtain ⟨rfl, rfl⟩ := List.cons.inj hcut
      refine ⟨rfl, fun _ => rfl, fun h => absurd rfl h, fun u v k hb hv hlt htop => ?_⟩
      have hnone := Stretch.unopened_of_passes hpass rfl hb hv hlt htop
      rwa [← htext] at hnone
    · obtain ⟨rfl, rfl⟩ := List.cons.inj hcut
      exact hstands xs s ys rfl
  have hidle : ∀ s ∈ (⟨.leading, [], b⟩ :: ss : List Stretch), ∀ c ∈ s.keyword, isIdle c = true :=
    List.forall_mem_cons.2 ⟨fun c hc => absurd hc List.not_mem_nil, fun s hs => (hkinds s hs).2⟩
  refine ⟨?_, _, hall, hclauses, hstand⟩
  rw [← balanced_bodyOf, ← hall,
    Stretch.balanced_textOf hidle fun xs s ys hcut => (hstand xs s ys hcut).level, ← hclauses]
  simp only [← Stretch.balanced_clauses, List.mem_flatMap]
  constructor
  · rintro h c ⟨s, hs, hc⟩
    exact h s hs c hc
  · intro h s hs c hc
    exact h c ⟨s, hs, hc⟩

end SqlScribe
