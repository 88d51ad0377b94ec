import SqlScribe.Proofs.Pattern.Hits
import SqlScribe.Proofs.Pattern.Walk

/-!
# What is preferred

Which of several ways and which of several places a search takes. A repetition is as long as the
rest of the search allows, of several words the one that stands there is taken, and of the places of
a text the first one with a match. Main statements:

* `first_upTo_longest`: the longest repetition behind which the search goes on;
* `first_oneOf_literal_of_head`, `first_oneOf_literal_eq_none`: words told apart by how they begin;
* `find?_eq_some_iff`: the first match of a text.
-/

namespace SqlScribe

namespace Pattern

variable {b : Option Char} {t u r : Text} {cs : List Capture} {k : CharClass} {K : Continuation}
  {d : Cursor} {p q : Pattern} {m : Match}

/-! ## Alternatives -/

/-- The beginning of the text. -/
theorem first_textStart : first (anchor .textStart) ⟨none, t, cs⟩ K = K ⟨none, t, cs⟩ := if_pos rfl

theorem first_alt_of_some {c : Cursor} (h : first p c K = some d) :
    first (alt p q) c K = some d := by
  rw [first, h]
  rfl

theorem first_alt_of_none {c : Cursor} (h : first p c K = none) :
    first (alt p q) c K = first q c K := by
  rw [first, h]
  rfl

/-- As many characters of the class are taken as the rest of the search allows. -/
theorem first_upTo_longest {n : Nat} (hn : u.length ≤ n) (hu : ∀ y ∈ u, k.has y = true)
    (hfail : ∀ v s, r = v ++ s → v ≠ [] → u.length + v.length ≤ n → (∀ y ∈ v, k.has y = true) →
      K ⟨(u ++ v).getLast?.or b, s, cs⟩ = none)
    (hK : K ⟨u.getLast?.or b, r, cs⟩ = some d) :
    first (upTo n (one k)) ⟨b, u ++ r, cs⟩ K = some d := by
  induction n generalizing b u with
  | zero =>
    obtain rfl := List.length_eq_zero_iff.1 (Nat.le_zero.1 hn)
    exact hK
  | succ n ih =>
    cases u with
    | nil =>
      have hmore : first (one k ++ upTo n (one k)) ⟨b, r, cs⟩ K = none := by
        rw [first_append]
        cases r with
        | nil => exact first_one_of_not_has (by simp)
        | cons x r =>
          cases hx : k.has x with
          | false => exact first_one_of_not_has fun y hy => Option.some.inj hy ▸ hx
          | true =>
            rw [first_one_of_has hx]
            refine first_upTo_eq_none fun v s hr hv hhas => ?_
            have hlast := hfail (x :: v) s (by rw [hr]; rfl) (List.cons_ne_nil x v)
              (by simp only [List.length_nil, List.length_cons]; omega)
              (List.forall_mem_cons.2 ⟨hx, hhas⟩)
            rwa [List.nil_append, Text.getLast?_cons_or] at hlast
      exact (first_alt_of_none hmore).trans hK
    | cons x u =>
      obtain ⟨hx, hu⟩ := List.forall_mem_cons.1 hu
      rw [Text.getLast?_cons_or] at hK
      refine first_alt_of_some ?_
      rw [first_append, List.cons_append, first_one_of_has hx]
      refine ih (Nat.le_of_succ_le_succ hn) hu (fun v s hr hne hlength hv => ?_) hK
      have hlast := hfail v s hr hne (by simp only [List.length_cons]; omega) hv
      rwa [List.cons_append, Text.getLast?_cons_or] at hlast

/-! ## One of several words -/

/-- A word that begins otherwise than a text does not stand in front of it. -/
theorem first_literal_of_head {w : Text} (hw : w ≠ []) (h : w.head? ≠ t.head?) :
    first (literal w) ⟨b, t, cs⟩ K = none := by
  rw [first_literal_eq, if_neg fun hprefix => h ?_]
  obtain ⟨s, rfl⟩ := List.isPrefixOf_iff_prefix.1 hprefix
  exact (List.head?_append_of_ne_nil w hw).symm

theorem oneOf_cons (p : Pattern) {ps : List Pattern} (h : ps ≠ []) :
    oneOf (p :: ps) = alt p (oneOf ps) := by
  obtain ⟨q, qs, rfl⟩ := List.exists_cons_of_ne_nil h
  rfl

theorem exists_of_spells_oneOf {ps : List Pattern} (h : (oneOf ps).Spells u) :
    ∃ p ∈ ps, p.Spells u := by
  induction ps with
  | nil =>
    obtain ⟨x, -, hx⟩ := h
    exact absurd hx (by simp [CharClass.has])
  | cons p ps ih =>
    by_cases hps : ps = []
    · subst hps
      exact ⟨p, List.mem_cons_self, h⟩
    · rw [oneOf_cons p hps] at h
      rcases h with h | h
      · exact ⟨p, List.mem_cons_self, h⟩
      · obtain ⟨q, hq, hu⟩ := ih h
        exact ⟨q, List.mem_cons_of_mem p hq, hu⟩

/-- None of the words begins as the text does. -/
theorem first_oneOf_literal_eq_none {ws : List Text} (hne : ∀ w ∈ ws, w ≠ [])
    (h : ∀ w ∈ ws, w.head? ≠ t.head?) : first (oneOf (ws.map literal)) ⟨b, t, cs⟩ K = none := by
  induction ws with
  | nil => exact first_one_of_not_has fun _ _ => rfl
  | cons w ws ih =>
    obtain ⟨hw, hne⟩ := List.forall_mem_cons.1 hne
    obtain ⟨hhead, h⟩ := List.forall_mem_cons.1 h
    have hfail : first (literal w) ⟨b, t, cs⟩ K = none := first_literal_of_head hw hhead
    by_cases hws : ws = []
    · subst hws
      exact hfail
    · rw [List.map_cons, oneOf_cons _ (by simpa using hws), first_alt_of_none hfail]
      exact ih hne h

/-- Only one of the words begins as the text does, and it stands there. -/
theorem first_oneOf_literal_of_head {ws : List Text} (hne : ∀ w ∈ ws, w ≠ []) {w : Text}
    (hw : w ∈ ws) (h : ∀ v ∈ ws, v.head? = w.head? → v = w)
    (hK : K ⟨w.getLast?.or b, r, cs⟩ = some d) :
    first (oneOf (ws.map literal)) ⟨b, w ++ r, cs⟩ K = some d := by
  induction ws with
  | nil => exact absurd hw List.not_mem_nil
  | cons v ws ih =>
    obtain ⟨hv, hne⟩ := List.forall_mem_cons.1 hne
    obtain ⟨hhead, h⟩ := List.forall_mem_cons.1 h
    have htake : first (literal w) ⟨b, w ++ r, cs⟩ K = some d := (first_literal w r).trans hK
    by_cases hvw : v = w
    · subst hvw
      by_cases hws : ws = []
      · subst hws
        exact htake
      · rw [List.map_cons, oneOf_cons _ (by simpa using hws)]
        exact first_alt_of_some htake
    · have hmem : w ∈ ws := (List.mem_cons.1 hw).resolve_left (Ne.symm hvw)
      have hfail : first (literal v) ⟨b, w ++ r, cs⟩ K = none := by
        refine first_literal_of_head hv fun heq => hvw (hhead ?_)
        have hwne : w ≠ [] := by
          rintro rfl
          exact hne [] hmem rfl
        rw [heq, List.head?_append_of_ne_nil w hwne]
      rw [List.map_cons, oneOf_cons _ (by simpa using List.ne_nil_of_mem hmem),
        first_alt_of_none hfail]
      exact ih hne hmem h

/-! ## The first match -/

/-- A match at the first place is the first one; where there is none the search goes on. -/
theorem head?_hits_cons (x : Char) (t : Text) :
    ((piecesFrom p b 0 (x :: t)).filterMap Piece.hit?).head? =
      (p.matchAt? b (x :: t)).or ((piecesFrom p (some x) 0 t).filterMap Piece.hit?).head? := by
  cases h : p.matchAt? b (x :: t) with
  | some m =>
    rw [piecesFrom_of_some h]
    rfl
  | none =>
    rw [piecesFrom_of_none h]
    rfl

theorem head?_hits_iff : ((piecesFrom p b 0 t).filterMap Piece.hit?).head? = some m ↔
    ∃ u w, t = u ++ w ∧ p.matchAt? (u.getLast?.or b) w = some m ∧
      ∀ a x s, u = a ++ x :: s → p.matchAt? (a.getLast?.or b) (x :: s ++ w) = none := by
  induction t generalizing b with
  | nil =>
    constructor
    · intro h
      exact absurd h (by simp [piecesFrom])
    · rintro ⟨u, w, ht, hm, -⟩
      obtain ⟨-, rfl⟩ := List.append_eq_nil_iff.1 ht.symm
      obtain ⟨hne, happ⟩ := matchAt?_text hm
      exact absurd (List.append_eq_nil_iff.1 happ).1 hne
  | cons x t ih =>
    rw [head?_hits_cons, Option.or_eq_some_iff, ih]
    constructor
    · rintro (hm | ⟨hnone, u, w, rfl, hm, hfirst⟩)
      · exact ⟨[], x :: t, rfl, hm, fun a y s h => absurd h (by simp)⟩
      · refine ⟨x :: u, w, rfl, by rwa [Text.getLast?_cons_or], fun a y s h => ?_⟩
        cases a with
        | nil =>
          obtain ⟨rfl, rfl⟩ := List.cons.inj h
          exact hnone
        | cons z a =>
          obtain ⟨rfl, rfl⟩ := List.cons.inj h
          rw [Text.getLast?_cons_or]
          exact hfirst a y s rfl
    · rintro ⟨u, w, ht, hm, hfirst⟩
      cases u with
      | nil =>
        obtain rfl : x :: t = w := ht
        exact Or.inl hm
      | cons y u =>
        obtain ⟨rfl, rfl⟩ := List.cons.inj ht
        refine Or.inr ⟨hfirst [] x u rfl, u, w, rfl, by rwa [Text.getLast?_cons_or] at hm,
          fun a z s h => ?_⟩
        have hnone := hfirst (x :: a) z s (by rw [h]; rfl)
        rwa [Text.getLast?_cons_or] at hnone

/-- The first match of a text, with no match at any place in front of it. -/
theorem find?_eq_some_iff : p.find? t = some m ↔
    ∃ u w, t = u ++ w ∧ p.matchAt? u.getLast? w = some m ∧
      ∀ a x s, u = a ++ x :: s → p.matchAt? a.getLast? (x :: s ++ w) = none := by
  rw [find?, findAll, pieces]
  simpa only [Option.or_none] using head?_hits_iff (b := none)

end Pattern

end SqlScribe
