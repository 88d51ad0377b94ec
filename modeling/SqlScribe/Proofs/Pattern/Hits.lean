import Mathlib.Algebra.Order.BigOperators.Group.List
import Mathlib.Algebra.Order.Group.Nat
import Mathlib.Data.List.Infix
import SqlScribe.Proofs.Pattern.Search
import SqlScribe.Proofs.Text.Layout

/-!
# Where a search finds something

When a pattern that takes at least one character has a match, and when replacing its matches
changes a text. A replacement that parts from its match, or is shorter, cannot be made good
by the others. Main statements:

* `exists_hit`: where there is a match, a search finds one;
* `diverges_of_clashes`: a text that no spelling of a pattern agrees with;
* `Parts.eq_of_hit`, `Shrinks.no_hit`: what is known of the matches in a text that stays.
-/

namespace SqlScribe

/-- What is put for a piece of a text when matches are replaced. -/
def Piece.put (f : Match → Text) : Piece → Text
  | plain c => [c]
  | hit m => f m

namespace Pattern

theorem replaceAll_eq (p : Pattern) (f : Match → Text) (t : Text) :
    p.replaceAll f t = (pieces p t).flatMap (Piece.put f) :=
  List.flatMap_congr fun piece _ => by cases piece <;> rfl

/-! ## Matches and ways -/

/-- Whether every way through the pattern takes at least one character. -/
def takesSome : Pattern → Bool
  | one _ => true
  | seq p q => p.takesSome || q.takesSome
  | alt p q => p.takesSome && q.takesSome
  | commit p | group _ p => p.takesSome
  | empty | run _ | anchor _ | star _ | lazyStar _ => false

theorem ne_nil_of_takesSome {p : Pattern} (hp : p.takesSome = true) {u : Text}
    (h : p.Spells u) : u ≠ [] := by
  induction p generalizing u with
  | one k =>
    obtain ⟨x, rfl, -⟩ := h
    exact List.cons_ne_nil _ _
  | seq p q ihp ihq =>
    obtain ⟨v, w, rfl, hv, hw⟩ := h
    rw [takesSome, Bool.or_eq_true] at hp
    rw [ne_eq, List.append_eq_nil_iff, not_and_or]
    exact hp.imp (fun hp => ihp hp hv) fun hq => ihq hq hw
  | alt p q ihp ihq =>
    rw [takesSome, Bool.and_eq_true] at hp
    exact h.elim (ihp hp.1) (ihq hp.2)
  | commit p ih => exact ih hp h
  | group n p ih => exact ih hp h
  | empty => exact absurd hp Bool.false_ne_true
  | run k => exact absurd hp Bool.false_ne_true
  | anchor a => exact absurd hp Bool.false_ne_true
  | star p => exact absurd hp Bool.false_ne_true
  | lazyStar p => exact absurd hp Bool.false_ne_true

/-- The match of the way that leads from the start of `t` to `d`. -/
def matchOf (b : Option Char) (t : Text) (d : Cursor) : Match :=
  let text := t.take (t.length - d.rest.length)
  ⟨b, text, d.captures.map fun g => (g.number, g.text), t.drop text.length⟩

theorem text_matchOf {p : Pattern} {b : Option Char} {t : Text} {d : Cursor}
    (hd : d ∈ ways p ⟨b, t, []⟩) : p.Spells (matchOf b t d).text := by
  obtain ⟨⟨u, hu, hspells⟩, -⟩ := leads_of_mem_ways hd
  have htext : (matchOf b t d).text = u := text_of_append hu
  exact htext ▸ hspells

/-- The match is the one of the most preferred way. -/
theorem matchAt?_eq {p : Pattern} (hp : p.takesSome = true) (b : Option Char) (t : Text) :
    p.matchAt? b t = (ways p ⟨b, t, []⟩).head?.map (matchOf b t) := by
  rw [matchAt?, first_eq]
  cases hways : ways p ⟨b, t, []⟩ with
  | nil => rfl
  | cons d ds =>
    have hne := ne_nil_of_takesSome hp (text_matchOf (hways ▸ List.mem_cons_self : d ∈ ways p _))
    exact if_neg (fun h => hne (List.isEmpty_iff.1 h))

theorem matchAt?_eq_none_iff {p : Pattern} (hp : p.takesSome = true) {b : Option Char} {t : Text} :
    p.matchAt? b t = none ↔ ways p ⟨b, t, []⟩ = [] := by
  rw [matchAt?_eq hp, Option.map_eq_none_iff, List.head?_eq_none_iff]

section Pieces

variable {p : Pattern} {b : Option Char} {c : Char} {t : Text} {m : Match}

theorem piecesFrom_of_some (h : p.matchAt? b (c :: t) = some m) :
    piecesFrom p b 0 (c :: t) = .hit m :: piecesFrom p (some c) (m.text.length - 1) t := by
  rw [piecesFrom, h]

theorem piecesFrom_of_none (h : p.matchAt? b (c :: t) = none) :
    piecesFrom p b 0 (c :: t) = .plain c :: piecesFrom p (some c) 0 t := by
  rw [piecesFrom, h]

theorem piecesFrom_skip (p : Pattern) (b : Option Char) (u r : Text) :
    piecesFrom p b u.length (u ++ r) = piecesFrom p (u.getLast?.or b) 0 r := by
  induction u generalizing b with
  | nil => rfl
  | cons c u ih =>
    rw [List.length_cons, List.cons_append, piecesFrom, ih, Text.getLast?_cons_or]

/-- A match is one piece, and the search goes on behind it. -/
theorem piecesFrom_hit {u r : Text} (h : p.matchAt? b (u ++ r) = some m) (hu : m.text = u) :
    piecesFrom p b 0 (u ++ r) = .hit m :: piecesFrom p (u.getLast?.or b) 0 r := by
  obtain ⟨hne, -⟩ := matchAt?_text h
  rw [hu] at hne
  obtain ⟨c, u, rfl⟩ := List.exists_cons_of_ne_nil hne
  rw [List.cons_append] at h
  rw [List.cons_append, piecesFrom_of_some h, hu, List.length_cons, Nat.add_sub_cancel,
    piecesFrom_skip, Text.getLast?_cons_or]

end Pieces

theorem exists_hit_from {p : Pattern} {b : Option Char} {v w : Text} {m : Match}
    (h : p.matchAt? (v.getLast?.or b) w = some m) : ∃ m', .hit m' ∈ piecesFrom p b 0 (v ++ w) := by
  induction v generalizing b with
  | nil =>
    cases w with
    | nil =>
      obtain ⟨hne, happ⟩ := matchAt?_text h
      exact absurd (List.append_eq_nil_iff.1 happ).1 hne
    | cons c w =>
      have hm : p.matchAt? b (c :: w) = some m := h
      exact ⟨m, by rw [List.nil_append, piecesFrom_of_some hm]; exact List.mem_cons_self⟩
  | cons c v ih =>
    rw [List.cons_append]
    cases hm : p.matchAt? b (c :: (v ++ w)) with
    | some m' => exact ⟨m', by rw [piecesFrom_of_some hm]; exact List.mem_cons_self⟩
    | none =>
      rw [piecesFrom_of_none hm]
      rw [Text.getLast?_cons_or] at h
      obtain ⟨m', hm'⟩ := ih h
      exact ⟨m', List.mem_cons_of_mem _ hm'⟩

/-- Where there is a match somewhere, a search finds one. -/
theorem exists_hit {p : Pattern} {v w : Text} {m : Match}
    (h : p.matchAt? v.getLast? w = some m) : ∃ m', .hit m' ∈ pieces p (v ++ w) :=
  exists_hit_from (b := none) (by rwa [Option.or_none])

/-- A search that finds nothing passes no match. -/
theorem matchAt?_eq_none_of_no_hit {p : Pattern} {t : Text} (h : ∀ m, .hit m ∉ pieces p t)
    {v w : Text} (ht : t = v ++ w) : p.matchAt? v.getLast? w = none := by
  by_contra hne
  obtain ⟨m, hm⟩ := Option.ne_none_iff_exists'.1 hne
  obtain ⟨m', hm'⟩ := exists_hit hm
  exact h m' (ht ▸ hm')

end Pattern

/-! ## Texts that part -/

/-- The texts have different characters at some place. -/
def Text.Diverges (u w : Text) : Prop :=
  ∃ a x y u' w', u = a ++ x :: u' ∧ w = a ++ y :: w' ∧ x ≠ y

namespace Text.Diverges

variable {u w : Text}

theorem symm (h : Diverges u w) : Diverges w u := by
  obtain ⟨a, x, y, u', w', hu, hw, hne⟩ := h
  exact ⟨a, y, x, w', u', hw, hu, hne.symm⟩

theorem widen {v : Text} (h : Diverges u w) (hv : w <+: v) : Diverges u v := by
  obtain ⟨a, x, y, u', w', hu, rfl, hne⟩ := h
  obtain ⟨r, rfl⟩ := hv
  exact ⟨a, x, y, u', w' ++ r, hu, by simp, hne⟩

theorem cons (c : Char) (h : Diverges u w) : Diverges (c :: u) (c :: w) := by
  obtain ⟨a, x, y, u', w', rfl, rfl, hne⟩ := h
  exact ⟨c :: a, x, y, u', w', rfl, rfl, hne⟩

theorem append (v : Text) (h : Diverges u w) : Diverges (v ++ u) (v ++ w) := by
  induction v with
  | nil => exact h
  | cons c v ih => exact ih.cons c

/-- What follows cannot make such texts the same. -/
theorem append_ne (h : Diverges u w) (r s : Text) : u ++ r ≠ w ++ s := by
  obtain ⟨a, x, y, u', w', rfl, rfl, hne⟩ := h
  intro heq
  simp only [List.append_assoc, List.cons_append, List.append_cancel_left_eq,
    List.cons.injEq] at heq
  exact hne heq.1

theorem ne (h : Diverges u w) : u ≠ w := fun heq => h.append_ne [] [] (by rw [heq])

end Text.Diverges

namespace Text.Diverges

/-- Two texts part, or one begins with the other. -/
theorem or_begins (u w : Text) : Diverges u w ∨ u <+: w ∨ w <+: u := by
  induction u generalizing w with
  | nil => exact Or.inr (Or.inl List.nil_prefix)
  | cons x u ih =>
    cases w with
    | nil => exact Or.inr (Or.inr List.nil_prefix)
    | cons y w =>
      by_cases hxy : x = y
      · subst hxy
        rcases ih w with h | h | h
        · exact Or.inl (h.cons x)
        · exact Or.inr (Or.inl ((List.prefix_cons_inj x).2 h))
        · exact Or.inr (Or.inr ((List.prefix_cons_inj x).2 h))
      · exact Or.inl ⟨[], x, y, u, w, rfl, rfl, hxy⟩

end Text.Diverges

namespace Pattern

/-! ## Patterns that part from a text -/

/-- What may be left of `w` behind a run of the class that has not parted from it. -/
def runRemains (k : CharClass) : Text → List Text
  | [] => [[]]
  | c :: w => (c :: w) :: if k.has c then runRemains k w else []

/-- What may be left of `w` behind a text that the pattern spells and that has not parted
from `w`; nothing is left where the text is as long as `w`. -/
def remains (w : Text) : Pattern → List Text
  | empty | anchor _ => [w]
  | one k =>
    match w with
    | [] => [[]]
    | c :: w => if k.has c then [w] else []
  | run k => runRemains k w
  | star _ | lazyStar _ => w.tails
  | seq p q => (remains w p).flatMap fun r => remains r q
  | alt p q => remains w p ++ remains w q
  | commit p | group _ p => remains w p

/-- Every text that the pattern spells parts from `w`. -/
def clashes (p : Pattern) (w : Text) : Bool := (remains w p).isEmpty

/-- `u` has left `r` of `w`. -/
def Leaves (u w r : Text) : Prop := w = u ++ r ∨ (r = [] ∧ w <+: u)

theorem leaves_run {k : CharClass} {u : Text} (hu : ∀ x ∈ u, k.has x = true) (w : Text) :
    Text.Diverges u w ∨ ∃ r ∈ runRemains k w, Leaves u w r := by
  induction u generalizing w with
  | nil => exact Or.inr ⟨w, by cases w <;> simp [runRemains], Or.inl rfl⟩
  | cons x u ih =>
    cases w with
    | nil => exact Or.inr ⟨[], by simp [runRemains], Or.inr ⟨rfl, List.nil_prefix⟩⟩
    | cons c w =>
      by_cases hxc : x = c
      · subst hxc
        rcases ih (fun y hy => hu y (List.mem_cons_of_mem x hy)) w with h | ⟨r, hr, h⟩
        · exact Or.inl (h.cons x)
        · refine Or.inr ⟨r, by simp [runRemains, hu x List.mem_cons_self, hr], ?_⟩
          rcases h with rfl | ⟨rfl, h⟩
          · exact Or.inl rfl
          · exact Or.inr ⟨rfl, (List.prefix_cons_inj x).2 h⟩
      · exact Or.inl ⟨[], x, c, u, w, rfl, rfl, hxc⟩

theorem leaves_tails (u w : Text) : Text.Diverges u w ∨ ∃ r ∈ w.tails, Leaves u w r := by
  rcases Text.Diverges.or_begins u w with h | ⟨r, rfl⟩ | h
  · exact Or.inl h
  · exact Or.inr ⟨r, List.mem_tails _ _ |>.2 (List.suffix_append u r), Or.inl rfl⟩
  · exact Or.inr ⟨[], List.mem_tails _ _ |>.2 List.nil_suffix, Or.inr ⟨rfl, h⟩⟩

/-- A text that the pattern spells parts from `w` or leaves one of the remains. -/
theorem leaves_of_spells {p : Pattern} {u : Text} (h : p.Spells u) (w : Text) :
    Text.Diverges u w ∨ ∃ r ∈ remains w p, Leaves u w r := by
  induction p generalizing u w with
  | empty =>
    obtain rfl : u = [] := h
    exact Or.inr ⟨w, List.mem_singleton_self w, Or.inl rfl⟩
  | anchor a =>
    obtain rfl : u = [] := h
    exact Or.inr ⟨w, List.mem_singleton_self w, Or.inl rfl⟩
  | one k =>
    obtain ⟨x, rfl, hx⟩ := h
    cases w with
    | nil => exact Or.inr ⟨[], List.mem_singleton_self _, Or.inr ⟨rfl, List.nil_prefix⟩⟩
    | cons c w =>
      by_cases hxc : x = c
      · subst hxc
        exact Or.inr ⟨w, by simp [remains, hx], Or.inl rfl⟩
      · exact Or.inl ⟨[], x, c, [], w, rfl, rfl, hxc⟩
  | run k => exact leaves_run h w
  | star p => exact leaves_tails u w
  | lazyStar p => exact leaves_tails u w
  | seq p q ihp ihq =>
    obtain ⟨v, x, rfl, hv, hx⟩ := h
    rcases ihp hv w with h | ⟨r, hr, h⟩
    · exact Or.inl (h.symm.widen (List.prefix_append v x)).symm
    · rcases ihq hx r with h' | ⟨s, hs, h'⟩
      · rcases h with rfl | ⟨rfl, -⟩
        · exact Or.inl (h'.append v)
        · obtain ⟨a, _, _, _, _, -, hnil, -⟩ := h'
          exact absurd hnil (by simp)
      · refine Or.inr ⟨s, List.mem_flatMap.2 ⟨r, hr, hs⟩, ?_⟩
        rcases h with rfl | ⟨rfl, h⟩
        · rcases h' with rfl | ⟨rfl, h'⟩
          · exact Or.inl (List.append_assoc v x s).symm
          · exact Or.inr ⟨rfl, (List.prefix_append_right_inj v).2 h'⟩
        · refine Or.inr ⟨?_, h.trans (List.prefix_append v x)⟩
          rcases h' with h' | ⟨rfl, -⟩
          · exact (List.append_eq_nil_iff.1 h'.symm).2
          · rfl
  | alt p q ihp ihq =>
    rcases h with h | h
    · exact (ihp h w).imp id fun ⟨r, hr, h⟩ => ⟨r, List.mem_append_left _ hr, h⟩
    · exact (ihq h w).imp id fun ⟨r, hr, h⟩ => ⟨r, List.mem_append_right _ hr, h⟩
  | commit p ih => exact ih h w
  | group n p ih => exact ih h w

/-- A clash is what it says. -/
theorem diverges_of_clashes {p : Pattern} {w u : Text} (hp : p.clashes w = true)
    (h : p.Spells u) : Text.Diverges u w := by
  rcases leaves_of_spells h w with h | ⟨r, hr, -⟩
  · exact h
  · rw [clashes, List.isEmpty_iff] at hp
    exact absurd hr (by simp [hp])

theorem matchAt?_eq_none_of_clashes {p : Pattern} {c : Char} (hp : p.clashes [c] = true)
    (b : Option Char) (t : Text) : p.matchAt? b (c :: t) = none := by
  by_contra hne
  obtain ⟨m, hm⟩ := Option.ne_none_iff_exists'.1 hne
  have hof := isOf_of_matchAt? hm
  exact (diverges_of_clashes hp hof.spells).append_ne m.after t hof.text_append

/-! ## Replacements that show -/

/-- Where parts are put for others, and each that is not the part it is put for parts from
it, the whole is the same only if each is. -/
theorem eq_of_flatMap_eq {α : Type} {f g : α → Text} {l : List α}
    (h : ∀ x ∈ l, f x = g x ∨ Text.Diverges (f x) (g x)) (heq : l.flatMap f = l.flatMap g) :
    ∀ x ∈ l, f x = g x := by
  induction l with
  | nil => exact fun x hx => absurd hx List.not_mem_nil
  | cons a l ih =>
    rw [List.flatMap_cons, List.flatMap_cons] at heq
    rcases h a List.mem_cons_self with ha | ha
    · rw [ha] at heq
      intro x hx
      rcases List.mem_cons.1 hx with rfl | hx
      · exact ha
      · exact ih (fun y hy => h y (List.mem_cons_of_mem a hy)) (List.append_cancel_left heq) x hx
    · exact absurd heq (ha.append_ne _ _)

/-- Each replacement is the match or parts from it. -/
def Parts (p : Pattern) (f : Match → Text) : Prop :=
  ∀ m b t, m.IsOf p b t → f m = m.text ∨ Text.Diverges (f m) m.text

/-- Each replacement is shorter than the match. -/
def Shrinks (p : Pattern) (f : Match → Text) : Prop :=
  ∀ m b t, m.IsOf p b t → (f m).length < m.text.length

variable {p : Pattern} {f : Match → Text} {t : Text}

theorem isOf_of_hit {m : Match} (h : .hit m ∈ pieces p t) : ∃ b s, m.IsOf p b s := by
  obtain ⟨v, w, -, hm⟩ := matchAt?_of_mem_pieces h
  exact ⟨_, _, isOf_of_matchAt? hm⟩

/-- If the text stays, each match that was found has been put for itself. -/
theorem Parts.eq_of_hit (hp : Parts p f) (ht : p.replaceAll f t = t) {m : Match}
    (hm : .hit m ∈ pieces p t) : f m = m.text := by
  have hput : ∀ piece ∈ pieces p t, piece.put f = piece.text ∨
      Text.Diverges (piece.put f) piece.text := by
    intro piece hpiece
    cases piece with
    | plain c => exact Or.inl rfl
    | hit m =>
      obtain ⟨b, s, hof⟩ := isOf_of_hit hpiece
      exact hp m b s hof
  rw [replaceAll_eq] at ht
  exact eq_of_flatMap_eq hput (ht.trans (text_pieces p t).symm) _ hm

/-- If the text stays, nothing was found that would have become shorter. -/
theorem Shrinks.no_hit (hp : Shrinks p f) (ht : p.replaceAll f t = t) (m : Match) :
    .hit m ∉ pieces p t := by
  intro hm
  have hlt : (p.replaceAll f t).length < ((pieces p t).flatMap Piece.text).length := by
    rw [replaceAll_eq, List.length_flatMap, List.length_flatMap]
    refine List.sum_lt_sum _ _ (fun piece hpiece => ?_) ⟨_, hm, ?_⟩
    · cases piece with
      | plain c => exact Nat.le_refl 1
      | hit m =>
        obtain ⟨b, s, hof⟩ := isOf_of_hit hpiece
        exact Nat.le_of_lt (hp m b s hof)
    · obtain ⟨b, s, hof⟩ := isOf_of_hit hm
      exact hp m b s hof
  rw [ht, text_pieces] at hlt
  exact Nat.lt_irrefl _ hlt

end Pattern

end SqlScribe
