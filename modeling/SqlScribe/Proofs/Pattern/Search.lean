import Mathlib.Data.List.Basic
import SqlScribe.Proofs.Pattern.Language
import SqlScribe.Pattern.Search

/-!
# Matches and replacements

What is known of a match that a search finds, and of a text in which matches were
replaced. Main statements:

* `isOf_of_matchAt?`: a match is spelled by its pattern, and its groups lie in it;
* `spells_group`: a group that every way captures is spelled by its pattern;
* `replaceAll_forall`: a property of characters that every replacement keeps is kept;
* `replaceAll_eq_self`: without a match nothing is replaced.
-/

namespace SqlScribe

/-- `m` is a match of the pattern at the start of `t`, behind the character `before`. -/
structure Match.IsOf (m : Match) (p : Pattern) (before : Option Char) (t : Text) : Prop where
  before_eq : m.before = before
  text_append : m.text ++ m.after = t
  text_ne : m.text ≠ []
  spells : p.Spells m.text
  groups : ∀ g ∈ m.groups, ∃ q, (g.1, q) ∈ p.groups ∧ g.2 <:+: m.text ∧ q.Spells g.2
  holds : ∀ a, p.beginsAt a = true → a.holds before t = true

/-- The text of a group that was captured stands among the groups. -/
theorem Match.mem_groups_of_group? {m : Match} {n : Nat} {u : Text} (h : m.group? n = some u) :
    (n, u) ∈ m.groups := by
  rw [Match.group?] at h
  obtain ⟨l₁, l₂, hl, -⟩ := List.lookup_eq_some_iff.1 h
  rw [hl]
  simp

namespace Match.IsOf

variable {m : Match} {p : Pattern} {before : Option Char} {t : Text}

/-- The text of a group lies in the match; one that was not captured is empty. -/
theorem group_infix (h : m.IsOf p before t) (n : Nat) : m.group n <:+: m.text := by
  rw [Match.group]
  cases hg : m.group? n with
  | none => exact List.nil_infix
  | some u =>
    obtain ⟨q, -, hu, -⟩ := h.groups _ (Match.mem_groups_of_group? hg)
    exact hu

theorem mem_text_of_mem_group (h : m.IsOf p before t) {n : Nat} {c : Char}
    (hc : c ∈ m.group n) : c ∈ m.text :=
  (h.group_infix n).subset hc

theorem mem_of_mem_text (h : m.IsOf p before t) {c : Char} (hc : c ∈ m.text) : c ∈ t :=
  h.text_append ▸ List.mem_append_left _ hc

end Match.IsOf

namespace Pattern

theorem text_of_append {s u r : Text} (h : s = u ++ r) : s.take (s.length - r.length) = u := by
  subst h
  rw [List.length_append, Nat.add_sub_cancel]
  exact List.take_left' rfl

/-- **What a match is.** -/
theorem isOf_of_matchAt? {p : Pattern} {before : Option Char} {t : Text} {m : Match}
    (h : p.matchAt? before t = some m) : m.IsOf p before t := by
  obtain ⟨hne, happ⟩ := matchAt?_text h
  unfold matchAt? at h
  rw [first_eq] at h
  simp only at h
  split at h
  · exact absurd h (by simp)
  · next d hd =>
    obtain ⟨x, hx, hxd⟩ := List.exists_of_findSome?_eq_some hd
    obtain rfl := Option.some.inj hxd
    obtain ⟨⟨u, hu, hsu⟩, new, hnew, hcap⟩ := leads_of_mem_ways hx
    rw [List.append_nil] at hnew
    have htake : t.take (t.length - x.rest.length) = u := text_of_append hu
    split at h
    · exact absurd h (by simp)
    · rw [Option.some.injEq] at h
      subst h
      refine ⟨rfl, happ, hne, by rwa [htake], fun g hg => ?_, fun a ha => ?_⟩
      · obtain ⟨k, hk, rfl⟩ := List.mem_map.1 hg
        obtain ⟨q, hq, a, w, b, hrest, hstart, hstop, hw⟩ := hcap k (hnew ▸ hk)
        have htext : k.text = w := by
          rw [Capture.text, hstop]
          exact text_of_append (by rw [hstart, List.append_assoc])
        refine ⟨q, hq, ?_, htext ▸ hw⟩
        rw [htake, htext]
        refine ⟨a, b, (List.append_left_inj x.rest).1 ?_⟩
        rw [← hrest, ← hu]
      · exact holds_of_mem_ways ha hx

/-! ## Groups that are always captured -/

/-- Whether every way through the pattern captures something under the number. -/
def captures (n : Nat) : Pattern → Bool
  | seq p q => p.captures n || q.captures n
  | alt p q => p.captures n && q.captures n
  | commit p => p.captures n
  | group m p => m == n || p.captures n
  | empty | one _ | run _ | anchor _ | star _ | lazyStar _ => false

theorem exists_capture {n : Nat} {p : Pattern} {c d : Cursor} (hp : p.captures n = true)
    (hd : d ∈ ways p c) : ∃ g ∈ d.captures, g.number = n := by
  induction p generalizing c d with
  | empty | one k | run k | anchor a | star p ih | lazyStar p ih =>
    exact absurd hp Bool.false_ne_true
  | seq p q ihp ihq =>
    obtain ⟨e, he, hd⟩ := List.mem_flatMap.1 hd
    rw [captures, Bool.or_eq_true] at hp
    rcases hp with hp | hq
    · obtain ⟨g, hg, hn⟩ := ihp hp he
      obtain ⟨-, new, hnew, -⟩ := leads_of_mem_ways hd
      exact ⟨g, hnew ▸ List.mem_append_right new hg, hn⟩
    · exact ihq hq hd
  | alt p q ihp ihq =>
    rw [captures, Bool.and_eq_true] at hp
    exact (List.mem_append.1 hd).elim (ihp hp.1) (ihq hp.2)
  | commit p ih => exact ih hp (List.mem_of_mem_take hd)
  | group m p ih =>
    obtain ⟨e, he, rfl⟩ := List.mem_map.1 hd
    rw [captures, Bool.or_eq_true, beq_iff_eq] at hp
    rcases hp with rfl | hp
    · exact ⟨⟨m, c.rest, e.rest⟩, List.mem_cons_self, rfl⟩
    · obtain ⟨g, hg, hn⟩ := ih hp he
      exact ⟨g, List.mem_cons_of_mem _ hg, hn⟩

/-- A group that is always captured is spelled by one of the patterns under its number. -/
theorem spells_group {n : Nat} {p : Pattern} {before : Option Char} {t : Text} {m : Match}
    (hp : p.captures n = true) (h : p.matchAt? before t = some m) :
    ∃ q, (n, q) ∈ p.groups ∧ q.Spells (m.group n) := by
  have hof := isOf_of_matchAt? h
  have hsome : m.group? n ≠ none := by
    unfold matchAt? at h
    rw [first_eq] at h
    simp only at h
    split at h
    · exact absurd h (by simp)
    · next d hd =>
      obtain ⟨x, hx, hxd⟩ := List.exists_of_findSome?_eq_some hd
      obtain rfl := Option.some.inj hxd
      obtain ⟨g, hg, hn⟩ := exists_capture hp hx
      split at h
      · exact absurd h (by simp)
      · obtain rfl := Option.some.inj h
        rw [Match.group?, ne_eq, List.lookup_eq_none_iff, List.forall_mem_map]
        exact fun hall => by simpa [hn] using hall g hg
  obtain ⟨u, hu⟩ := Option.ne_none_iff_exists'.1 hsome
  obtain ⟨q, hq, -, hspells⟩ := hof.groups _ (Match.mem_groups_of_group? hu)
  exact ⟨q, hq, by rwa [Match.group, hu]⟩

/-! ## The matches of a search -/

/-- Every match was found at some place of the text. -/
theorem matchAt?_of_mem_piecesFrom {p : Pattern} {u s : Text} {skip : Nat} {m : Match}
    (h : Piece.hit m ∈ piecesFrom p u.getLast? skip s) :
    ∃ v w, u ++ s = v ++ w ∧ p.matchAt? v.getLast? w = some m := by
  induction s generalizing u skip with
  | nil => cases skip <;> exact absurd h List.not_mem_nil
  | cons c s ih =>
    -- `u` is what has been read, and only its last character decides what may match
    have happ : u ++ c :: s = u ++ [c] ++ s := by simp
    have hlast : some c = (u ++ [c]).getLast? := by simp
    cases skip with
    | succ skip =>
      rw [piecesFrom, hlast] at h
      rw [happ]
      exact ih h
    | zero =>
      rw [piecesFrom] at h
      split at h
      · next m' hm' =>
        rcases List.mem_cons.1 h with h | h
        · exact ⟨u, c :: s, rfl, by rw [hm', Piece.hit.inj h]⟩
        · rw [hlast] at h
          rw [happ]
          exact ih h
      · rcases List.mem_cons.1 h with h | h
        · exact absurd h (by simp)
        · rw [hlast] at h
          rw [happ]
          exact ih h

theorem matchAt?_of_mem_pieces {p : Pattern} {t : Text} {m : Match} (h : .hit m ∈ pieces p t) :
    ∃ v w, t = v ++ w ∧ p.matchAt? v.getLast? w = some m :=
  matchAt?_of_mem_piecesFrom (u := []) h

/-- Every match that a search finds is one at some place of the text. -/
theorem isOf_of_mem_findAll {p : Pattern} {t : Text} {m : Match} (h : m ∈ p.findAll t) :
    ∃ v w, t = v ++ w ∧ m.IsOf p v.getLast? w := by
  obtain ⟨piece, hpiece, hm⟩ := List.mem_filterMap.1 h
  cases piece with
  | plain c => exact absurd hm (by simp [Piece.hit?])
  | hit m' =>
    obtain rfl : m' = m := Option.some.inj hm
    obtain ⟨v, w, ht, hv⟩ := matchAt?_of_mem_pieces hpiece
    exact ⟨v, w, ht, isOf_of_matchAt? hv⟩

/-! ## Replacing -/

/-- A property of characters is kept by replacing if every replacement has it. -/
theorem replaceAll_forall {P : Char → Prop} {p : Pattern} {f : Match → Text} {t : Text}
    (ht : ∀ c ∈ t, P c)
    (hf : ∀ m before s, m.IsOf p before s → (∀ c ∈ m.text, P c) → ∀ c ∈ f m, P c) :
    ∀ c ∈ p.replaceAll f t, P c := by
  intro c hc
  obtain ⟨piece, hpiece, hc⟩ := List.mem_flatMap.1 hc
  have hsub : ∀ d ∈ piece.text, P d := fun d hd =>
    ht d (text_pieces p t ▸ List.mem_flatMap.2 ⟨piece, hpiece, hd⟩)
  cases piece with
  | plain d => exact hsub c hc
  | hit m =>
    obtain ⟨v, w, -, hm⟩ := matchAt?_of_mem_pieces hpiece
    exact hf m _ w (isOf_of_matchAt? hm) hsub c hc

/-- Where each match that is found is put for itself, the text stays. -/
theorem replaceAll_eq_self_of_hits {p : Pattern} {f : Match → Text} {t : Text}
    (h : ∀ m, .hit m ∈ pieces p t → f m = m.text) : p.replaceAll f t = t := by
  refine Eq.trans (List.flatMap_congr fun piece hpiece => ?_) (text_pieces p t)
  cases piece with
  | plain c => rfl
  | hit m => exact h m hpiece

/-- Where there is no match nothing is replaced. -/
theorem replaceAll_eq_self {p : Pattern} {t : Text} (f : Match → Text)
    (h : ∀ v w, t = v ++ w → p.matchAt? v.getLast? w = none) : p.replaceAll f t = t := by
  refine replaceAll_eq_self_of_hits fun m hm => ?_
  obtain ⟨v, w, ht, hvw⟩ := matchAt?_of_mem_pieces hm
  rw [h v w ht] at hvw
  exact absurd hvw (by simp)

end Pattern

end SqlScribe
