import SqlScribe.Proofs.Expression.Rewriting
import SqlScribe.Proofs.Pattern.Elastic

/-!
# Matches in squeezed texts

What an elastic pattern finds in a text with every run of blanks written as one space, and what is
left when its matches are replaced. Main statements:

* `Elastic.matchAt?_squeeze`: it has the same match in the squeezed text;
* `settles_of_beginsAt`, `settles_of_sign`, `settles_of_blanks`: patterns that are not found within
  a run of blanks;
* `Elastic.squeeze_replaceFrom`: it replaces the same.
-/

namespace SqlScribe

open Text

/-- The match with every run of blanks in it written as one space. -/
def Match.squeezed (m : Match) : Match :=
  ⟨m.before.map asSpace, squeeze m.text, m.groups.map fun g => (g.1, squeeze g.2), squeeze m.after⟩

theorem Match.group?_squeezed (m : Match) (n : Nat) :
    m.squeezed.group? n = (m.group? n).map squeeze := by
  rw [group?, group?, squeezed]
  induction m.groups with
  | nil => rfl
  | cons g gs ih =>
    rw [List.map_cons, List.lookup_cons, List.lookup_cons, ih]
    split <;> rfl

theorem Match.group_squeezed (m : Match) (n : Nat) : m.squeezed.group n = squeeze (m.group n) := by
  rw [group, group, group?_squeezed]
  cases m.group? n <;> rfl

namespace Pattern

variable {p : Pattern} {b : Option Char} {t : Text} {f : Match → Text}

/-- A search that has not moved has found nothing. -/
theorem matchAt?_of_first_self {b' : Option Char} {cs : List Capture}
    (h : p.first ⟨b, t, []⟩ some = some ⟨b', t, cs⟩) : p.matchAt? b t = none := by
  rw [matchAt?, h]
  simp

theorem getLast?_or_squeeze (u : Text) (b : Option Char) :
    (squeeze u).getLast?.or (b.map asSpace) = (u.getLast?.or b).map asSpace := by
  rw [getLast?_squeeze]
  cases u.getLast? <;> rfl

/-- **The same matches.** An elastic pattern has the same match in the squeezed text, and its match
does not end within a run of blanks. -/
theorem Elastic.matchAt?_squeeze (hp : Elastic p) (ht : RunEnds b t) :
    p.matchAt? (b.map asSpace) (squeeze t) = (p.matchAt? b t).map Match.squeezed ∧
      ∀ m, p.matchAt? b t = some m → RunEnds (m.text.getLast?.or b) m.after := by
  have hrel : Option.Rel
      (fun d e => (d : Cursor).Fit ∧ Cursor.Reaches ⟨b, t, []⟩ d ∧ e = d.squeezed)
      (first p ⟨b, t, []⟩ some) (first p ⟨b.map asSpace, squeeze t, []⟩ some) :=
    hp _ ⟨b, t, []⟩ some some ⟨ht, by simp⟩ forgetful_some forgetful_some
      fun d hd hcd => .some ⟨hd, hcd, rfl⟩
  generalize hleft : first p ⟨b, t, []⟩ some = x at hrel
  generalize hright : first p ⟨b.map asSpace, squeeze t, []⟩ some = y at hrel
  cases hrel with
  | none =>
    rw [matchAt?_eq_none_of_first hleft, matchAt?_eq_none_of_first hright]
    exact ⟨rfl, fun m hm => absurd hm (by simp)⟩
  | @some d e h =>
    obtain ⟨hfit, ⟨u, hu, hbefore⟩, rfl⟩ := h
    obtain ⟨b', r, cs⟩ := d
    obtain rfl : t = u ++ r := hu
    by_cases hnil : u = []
    · subst hnil
      rw [matchAt?_of_first_self hleft, matchAt?_of_first_self hright]
      exact ⟨rfl, fun m hm => absurd hm (by simp)⟩
    · have hruns : RunEnds (u.getLast?.or b) r := hbefore ▸ hfit.runEnds
      have hsplit : squeeze (u ++ r) = squeeze u ++ squeeze r := by
        refine squeeze_append_of_runEnds fun hlast => hruns ?_
        cases hd : u.getLast? with
        | none => exact absurd hlast (by simp [hd])
        | some z => simpa [hd] using hlast
      have htexts : (cs.map Capture.squeezed).map (fun g => (g.number, g.text)) =
          (cs.map fun g => (g.number, g.text)).map fun g => (g.1, squeeze g.2) := by
        rw [List.map_map, List.map_map]
        exact List.map_congr_left fun g hg => Prod.ext rfl (hfit.whole g hg).text_squeezed
      rw [hsplit] at hright ⊢
      rw [matchAt?_of_first hleft hnil, matchAt?_of_first hright (by simpa using hnil), htexts]
      exact ⟨rfl, fun m hm => Option.some.inj hm ▸ hruns⟩

/-! ## Replacing -/

/-- Where a pattern is not found at the start of a run of blanks, it is not found within the run. -/
def Settles (p : Pattern) : Prop := ∀ b x y t, isBlank x = true → isBlank y = true →
  p.matchAt? b (x :: y :: t) = none → p.matchAt? (some x) (y :: t) = none

/-- A pattern that begins where a word does is not found within a run of blanks. -/
theorem settles_of_beginsAt (hp : p.beginsAt .wordEdge = true) : Settles p := by
  intro b x y t hx hy _
  refine matchAt?_eq_none_of_first ?_
  rw [first_eq, List.findSome?_eq_none_iff]
  intro d hd
  have hholds := holds_of_mem_ways hp hd
  rw [Anchor.holds] at hholds
  simp [isWordChar_of_isBlank hx, isWordChar_of_isBlank hy] at hholds

/-- The part that a pattern begins with. -/
def leftmost : Pattern → Pattern
  | seq p _ => p.leftmost
  | p => p

theorem exists_first_leftmost (p : Pattern) :
    ∃ F : Cursor → Continuation → Option Cursor,
      ∀ d K, first p d K = first p.leftmost d fun e => F e K := by
  induction p with
  | seq p q ihp _ =>
    obtain ⟨F, hF⟩ := ihp
    exact ⟨fun e K => F e fun d => first q d K, fun d K => hF d fun d => first q d K⟩
  | _ => exact ⟨fun e K => K e, fun _ _ => rfl⟩

/-- A pattern that begins with a sign is not found at a blank. -/
theorem settles_of_sign {c : Char} (hp : p.leftmost = one (.among [c])) (hc : isBlank c = false) :
    Settles p := by
  intro b x y t _ hy _
  obtain ⟨F, hF⟩ := exists_first_leftmost p
  refine matchAt?_eq_none_of_first ((hF _ _).trans ?_)
  rw [hp]
  refine first_one_of_not_has fun z hz => ?_
  obtain rfl := Option.some.inj hz
  have hne : y ≠ c := by
    rintro rfl
    rw [hy] at hc
    exact Bool.noConfusion hc
  simpa [CharClass.has] using hne

/-- A pattern that begins with blanks is found at the start of a run of blanks or nowhere in it. -/
theorem settles_of_blanks (hp : p.leftmost = blanks) : Settles p := by
  intro b x y t hx hy hnone
  obtain ⟨F, hF⟩ := exists_first_leftmost p
  have hsame : ∀ cs K, first p ⟨b, x :: y :: t, cs⟩ K = first p ⟨some x, y :: t, cs⟩ K := by
    intro cs K
    have hblank : CharClass.has .blank x = true := hx
    rw [hF, hF, hp, blanks, first_run, first_run]
    simp only [List.takeWhile_cons_of_pos hblank, List.dropWhile_cons_of_pos hblank,
      Text.getLast?_cons_or]
  by_contra hne
  obtain ⟨m, hm⟩ := Option.ne_none_iff_exists'.1 hne
  obtain ⟨d, hd, hafter⟩ := exists_first_of_matchAt? hm
  obtain ⟨b', r, cs⟩ := d
  have htext := (matchAt?_text hm).2
  obtain rfl : r = m.after := hafter
  have hfound : first p ⟨b, (x :: m.text) ++ m.after, []⟩ some = some ⟨b', m.after, cs⟩ := by
    rw [List.cons_append, htext, hsame, hd]
  have hsome := matchAt?_of_first hfound (List.cons_ne_nil _ _)
  rw [List.cons_append, htext, hnone] at hsome
  exact absurd hsome (by simp)

theorem Settles.quiet (hs : Settles p) {g : Text} (hg : ∀ c ∈ g, isBlank c = true)
    (hnone : p.matchAt? b (g ++ t) = none) : Quiet p b g t := by
  induction g generalizing b with
  | nil => exact Quiet.nil
  | cons x g ih =>
    obtain ⟨hx, hg⟩ := List.forall_mem_cons.1 hg
    refine Quiet.cons hnone ?_
    cases g with
    | nil => exact Quiet.nil
    | cons y g => exact ih hg (hs b x y (g ++ t) hx (hg y List.mem_cons_self) hnone)

/-- **The same replaced.** An elastic pattern replaces the same in the squeezed text, if what is put
for a match is the same for the squeezed match. -/
theorem Elastic.squeeze_replaceFrom (hp : Elastic p) (hs : Settles p)
    (hf : ∀ m, squeeze (f m.squeezed) = squeeze (f m)) (ht : RunEnds b t) :
    squeeze (replaceFrom p f (b.map asSpace) (squeeze t)) = squeeze (replaceFrom p f b t) := by
  induction hn : t.length using Nat.strong_induction_on generalizing b t with
  | _ n ih =>
    obtain ⟨hmatch, hend⟩ := hp.matchAt?_squeeze ht
    cases hm : p.matchAt? b t with
    | some m =>
      obtain ⟨hne, htext⟩ := matchAt?_text hm
      rw [hm, Option.map_some] at hmatch
      have hruns := hend m hm
      have hsplit : squeeze t = squeeze m.text ++ squeeze m.after := by
        rw [← htext]
        refine squeeze_append_of_runEnds fun hlast => hruns ?_
        cases hd : m.text.getLast? with
        | none => exact absurd hlast (by simp [hd])
        | some z => simpa [hd] using hlast
      have hnext := ih m.after.length (by
        rw [← hn, ← htext, List.length_append]
        have := List.length_pos_iff.2 hne
        omega) hruns rfl
      rw [hsplit] at hmatch ⊢
      rw [← htext] at hm ⊢
      rw [replaceFrom_hit hmatch rfl, replaceFrom_hit hm rfl, getLast?_or_squeeze]
      exact squeeze_append_congr (hf m) hnext
    | none =>
      rw [hm, Option.map_none] at hmatch
      cases laidOut t with
      | nil => rfl
      | @char c t hc _ =>
        rw [squeeze_cons_of_not_blank hc] at hmatch ⊢
        have hnext := ih t.length (by simp [← hn]) (b := some c)
          (runEnds_of_not_blank (by simpa using hc)) rfl
        rw [Option.map_some, asSpace_of_not_blank hc] at hnext
        rw [replaceFrom_cons hmatch, replaceFrom_cons hm, squeeze_cons_of_not_blank hc,
          squeeze_cons_of_not_blank hc, hnext]
      | @run g t hne hg hhead _ =>
        rw [squeeze_run hne hg hhead] at hmatch ⊢
        obtain ⟨u, x, hx⟩ := (List.eq_nil_or_concat g).resolve_left hne
        have hlast : g.getLast?.or b = some x := by simp [hx]
        have hblank : isBlank x = true := hg x (by simp [hx])
        have hnext := ih t.length (by
          rw [← hn, List.length_append]
          have := List.length_pos_iff.2 hne
          omega) (b := some x) (runEnds_of_head hhead) rfl
        rw [Option.map_some, asSpace_of_blank hblank] at hnext
        rw [replaceFrom_cons hmatch, replaceFrom_quiet (hs.quiet hg hm), hlast]
        refine squeeze_append_congr (a := [' ']) ?_ hnext
        have hrun := squeeze_run (t := []) hne hg rfl
        rw [List.append_nil] at hrun
        rw [hrun]
        rfl

end Pattern

end SqlScribe
