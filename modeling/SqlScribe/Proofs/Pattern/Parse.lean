import SqlScribe.Proofs.Pattern.Walk

/-!
# What a match captures

A way through a pattern reads a text part by part, and what it captures are parts of this text, in
order. `Pattern.Parses` says which text goes with which captured texts, so that a match is known
with the places where its groups stand. Main statements:

* `parses_of_matchAt?`: a match and its groups are parsed by the pattern;
* `parses_argument`, `parses_call2`: the arguments of a call and what stands around them.
-/

namespace SqlScribe

/-- Captured texts with their numbers, the latest first. -/
abbrev Groups := List (Nat × Text)

namespace Pattern

/-- A way through the pattern may take the text and capture the groups on it. -/
def Parses : Pattern → Text → Groups → Prop
  | empty, u, gs | anchor _, u, gs => u = [] ∧ gs = []
  | one k, u, gs => (∃ x, u = [x] ∧ k.has x = true) ∧ gs = []
  | run k, u, gs => (∀ x ∈ u, k.has x = true) ∧ gs = []
  | seq p q, u, gs => ∃ v fs w hs, u = v ++ w ∧ gs = hs ++ fs ∧ p.Parses v fs ∧ q.Parses w hs
  | alt p q, u, gs => p.Parses u gs ∨ q.Parses u gs
  | star p, u, gs | lazyStar p, u, gs => ∃ parts : List (Text × Groups),
      u = parts.flatMap Prod.fst ∧ gs = parts.reverse.flatMap Prod.snd ∧
        ∀ x ∈ parts, p.Parses x.1 x.2
  | commit p, u, gs => p.Parses u gs
  | group n p, u, gs => ∃ fs, gs = (n, u) :: fs ∧ p.Parses u fs

variable {p q : Pattern} {c d e : Cursor} {u v w : Text} {gs : Groups} {n : Nat} {k : CharClass}

/-! ## Patterns without groups -/

/-- What is parsed is spelled. -/
theorem Parses.spells (h : p.Parses u gs) : p.Spells u := by
  induction p generalizing u gs with
  | empty | anchor a => exact h.1
  | one k => exact h.1
  | run k => exact h.1
  | seq p q ihp ihq =>
    obtain ⟨v, fs, w, hs, rfl, -, hv, hw⟩ := h
    exact ⟨v, w, rfl, ihp hv, ihq hw⟩
  | alt p q ihp ihq => exact h.imp ihp ihq
  | star p ih | lazyStar p ih =>
    obtain ⟨parts, rfl, -, hparts⟩ := h
    refine ⟨parts.map Prod.fst, rfl, List.forall_mem_map.2 fun x hx => ih (hparts x hx)⟩
  | commit p ih => exact ih h
  | group n p ih =>
    obtain ⟨fs, -, hu⟩ := h
    exact ih hu

/-- A pattern without groups captures nothing. -/
theorem Parses.eq_nil (hp : p.groups = []) (h : p.Parses u gs) : gs = [] := by
  induction p generalizing u gs with
  | empty | anchor a | one k | run k => exact h.2
  | seq p q ihp ihq =>
    obtain ⟨v, fs, w, hs, -, rfl, hv, hw⟩ := h
    obtain ⟨hpn, hqn⟩ := List.append_eq_nil_iff.1 hp
    rw [ihp hpn hv, ihq hqn hw]
    rfl
  | alt p q ihp ihq =>
    obtain ⟨hpn, hqn⟩ := List.append_eq_nil_iff.1 hp
    exact h.elim (ihp hpn) (ihq hqn)
  | star p ih | lazyStar p ih =>
    obtain ⟨parts, -, rfl, hparts⟩ := h
    exact List.flatMap_eq_nil_iff.2 fun x hx => ih hp (hparts x (List.mem_reverse.1 hx))
  | commit p ih => exact ih hp h
  | group n p ih => exact absurd hp (List.cons_ne_nil _ _)

/-! ## Ways -/

/-- The groups of a cursor. -/
def groupsOf (c : Cursor) : Groups := c.captures.map fun g => (g.number, g.text)

/-- The way from one cursor to another takes a text and captures groups that the pattern
parses. -/
def Takes (p : Pattern) (c d : Cursor) : Prop :=
  ∃ u gs, c.rest = u ++ d.rest ∧ groupsOf d = gs ++ groupsOf c ∧ p.Parses u gs

theorem takes_star_refl (p : Pattern) (c : Cursor) : Takes (star p) c c :=
  ⟨[], [], rfl, rfl, [], rfl, rfl, fun _ hx => absurd hx List.not_mem_nil⟩

theorem Takes.star_step (h : Takes p c d) (hrest : Takes (star p) d e) : Takes (star p) c e := by
  obtain ⟨u, gs, hu, hgs, hparse⟩ := h
  obtain ⟨v, hs, hv, hhs, parts, rfl, rfl, hparts⟩ := hrest
  refine ⟨u ++ parts.flatMap Prod.fst, parts.reverse.flatMap Prod.snd ++ gs, ?_, ?_,
    (u, gs) :: parts, rfl, by simp, List.forall_mem_cons.2 ⟨hparse, hparts⟩⟩
  · rw [hu, hv, List.append_assoc]
  · rw [hhs, hgs, List.append_assoc]

theorem takes_of_mem_longestFirst {step : Cursor → List Cursor}
    (h : ∀ c d, d ∈ step c → Takes p c d) (n : Nat) (hd : d ∈ longestFirst step n c) :
    Takes (star p) c d := by
  induction n generalizing c with
  | zero => exact List.mem_singleton.1 hd ▸ takes_star_refl p c
  | succ n ih =>
    rcases List.mem_append.1 hd with hd | hd
    · obtain ⟨x, hx, hd⟩ := List.mem_flatMap.1 hd
      exact (h c x hx).star_step (ih hd)
    · exact List.mem_singleton.1 hd ▸ takes_star_refl p c

theorem takes_of_mem_shortestFirst {step : Cursor → List Cursor}
    (h : ∀ c d, d ∈ step c → Takes p c d) (n : Nat) (hd : d ∈ shortestFirst step n c) :
    Takes (star p) c d := by
  induction n generalizing c with
  | zero => exact List.mem_singleton.1 hd ▸ takes_star_refl p c
  | succ n ih =>
    rcases List.mem_cons.1 hd with rfl | hd
    · exact takes_star_refl p d
    · obtain ⟨x, hx, hd⟩ := List.mem_flatMap.1 hd
      exact (h c x hx).star_step (ih hd)

/-- **What a way captures.** -/
theorem takes_of_mem_ways (hd : d ∈ ways p c) : Takes p c d := by
  induction p generalizing c d with
  | empty => exact List.mem_singleton.1 hd ▸ ⟨[], [], rfl, rfl, rfl, rfl⟩
  | one k =>
    rw [ways, Option.mem_toList, Cursor.one?] at hd
    split at hd
    · exact absurd hd (by simp)
    · next x t hrest =>
      split at hd
      · next hx =>
        cases hd
        exact ⟨[x], [], hrest, rfl, ⟨x, rfl, hx⟩, rfl⟩
      · exact absurd hd (by simp)
  | run k =>
    obtain rfl := List.mem_singleton.1 hd
    obtain ⟨u, hu, hall⟩ := spanRun_append k c.before c.rest
    exact ⟨u, [], hu, rfl, hall, rfl⟩
  | anchor a =>
    rw [ways] at hd
    split at hd
    · exact List.mem_singleton.1 hd ▸ ⟨[], [], rfl, rfl, rfl, rfl⟩
    · exact absurd hd List.not_mem_nil
  | seq p q ihp ihq =>
    obtain ⟨x, hx, hd⟩ := List.mem_flatMap.1 hd
    obtain ⟨u, fs, hu, hfs, hp⟩ := ihp hx
    obtain ⟨v, hs, hv, hhs, hq⟩ := ihq hd
    exact ⟨u ++ v, hs ++ fs, by rw [hu, hv, List.append_assoc], by rw [hhs, hfs, List.append_assoc],
      u, fs, v, hs, rfl, rfl, hp, hq⟩
  | alt p q ihp ihq =>
    rcases List.mem_append.1 hd with hd | hd
    · obtain ⟨u, gs, hu, hgs, hp⟩ := ihp hd
      exact ⟨u, gs, hu, hgs, Or.inl hp⟩
    · obtain ⟨u, gs, hu, hgs, hq⟩ := ihq hd
      exact ⟨u, gs, hu, hgs, Or.inr hq⟩
  | star p ih => exact takes_of_mem_longestFirst (fun _ _ => ih) _ hd
  | lazyStar p ih => exact takes_of_mem_shortestFirst (fun _ _ => ih) _ hd
  | commit p ih => exact ih (List.mem_of_mem_take hd)
  | group n p ih =>
    obtain ⟨x, hx, rfl⟩ := List.mem_map.1 hd
    obtain ⟨u, gs, hu, hgs, hp⟩ := ih hx
    refine ⟨u, (n, u) :: gs, hu, ?_, gs, rfl, hp⟩
    have htext : Capture.text ⟨n, c.rest, x.rest⟩ = u := text_of_append hu
    rw [groupsOf, Cursor.capture, List.map_cons, htext]
    exact congrArg _ hgs

/-- **A match and its groups.** -/
theorem parses_of_matchAt? {before : Option Char} {t : Text} {m : Match}
    (h : p.matchAt? before t = some m) : p.Parses m.text m.groups := by
  unfold matchAt? at h
  rw [first_eq] at h
  simp only at h
  split at h
  · exact absurd h (by simp)
  · next d hd =>
    obtain ⟨x, hx, hxd⟩ := List.exists_of_findSome?_eq_some hd
    obtain rfl := Option.some.inj hxd
    obtain ⟨u, gs, hu, hgs, hparse⟩ := takes_of_mem_ways hx
    split at h
    · exact absurd h (by simp)
    · obtain rfl := Option.some.inj h
      have hgroups : groupsOf x = gs := hgs.trans (List.append_nil gs)
      rw [← hgroups] at hparse
      have htext : t.take (t.length - x.rest.length) = u := text_of_append hu
      show p.Parses (t.take (t.length - x.rest.length)) (groupsOf x)
      rwa [htext]

/-! ## Calls -/

theorem parses_literal {t : Text} (h : (literal t).Parses u gs) : u = t ∧ gs = [] := by
  refine ⟨spells_literal.1 h.spells, h.eq_nil ?_⟩
  clear h
  induction t with
  | nil => rfl
  | cons c t ih => exact ih

/-- The name of a function and the parenthesis behind it. -/
theorem parses_opening {name : Text} (h : (opening name).Parses u gs) :
    ∃ g e, u = g ++ (e ++ ['(']) ∧ gs = [] ∧ SameLetters g name ∧ ∀ c ∈ e, isBlank c = true := by
  obtain ⟨g, e, hu, hg, he⟩ := of_spells_opening h.spells
  refine ⟨g, e, hu, h.eq_nil ?_, hg, he⟩
  have hletters : ∀ t : Text, (letters t).groups = [] := by
    intro t
    induction t with
    | nil => rfl
    | cons c t ih => exact ih
  show (letters name).groups ++ [] ++ [] = []
  rw [hletters]
  rfl

/-- The argument of a call, with blanks around it. -/
theorem parses_argument (hk : ∀ c, isBlank c = true → k.has c = true)
    (h : (argument n k).Parses u gs) : ∃ s a s', u = s ++ (a ++ s') ∧ gs = [(n, a)] ∧
      (∀ x ∈ s, isBlank x = true) ∧ (∀ x ∈ a, k.has x = true) ∧ ∀ x ∈ s', isBlank x = true := by
  have hblanks : ∀ {v : Text}, (many .blank).Spells v → ∀ x ∈ v, isBlank x = true := by
    rintro v ⟨vs, rfl, hvs⟩ x hx
    obtain ⟨y, hy, hx⟩ := List.mem_flatten.1 hx
    obtain ⟨z, rfl, hz⟩ := hvs y hy
    exact List.mem_singleton.1 hx ▸ hz
  rcases h with ⟨_, _, s', _, rfl, rfl, ⟨s, _, a, _, rfl, rfl, ⟨hs, rfl⟩, fs, rfl, ha⟩, hs', rfl⟩ |
    ⟨s, _, a, _, rfl, rfl, hs, fs, rfl, ⟨x, rfl, hx⟩, rfl⟩
  · obtain rfl := ha.eq_nil rfl
    refine ⟨s, a, s', by rw [List.append_assoc], rfl, hs, ?_, hs'⟩
    obtain ⟨_, r, rfl, ⟨y, rfl, hy⟩, vs, rfl, hvs⟩ := ha.spells
    refine List.forall_mem_cons.2 ⟨hy, fun x hx => ?_⟩
    obtain ⟨v, hv, hx⟩ := List.mem_flatten.1 hx
    obtain ⟨z, rfl, hz⟩ := hvs v hv
    exact List.mem_singleton.1 hx ▸ hz
  · obtain rfl := hs.eq_nil rfl
    exact ⟨s, [x], [], rfl, rfl, hblanks hs.spells, by simpa using hk x hx, by simp⟩

/-- A call with two arguments. -/
theorem parses_call2 {name : Text} (hk : ∀ c, isBlank c = true → k.has c = true)
    (h : (call2 name k).Parses u gs) : ∃ g e s a s' r b r',
      u = g ++ (e ++ '(' :: (s ++ (a ++ (s' ++ ',' :: (r ++ (b ++ (r' ++ [')']))))))) ∧
      gs = [(2, b), (1, a)] ∧ SameLetters g name ∧
      (∀ x ∈ e ++ s ++ s' ++ r ++ r', isBlank x = true) ∧
      ∀ x ∈ a ++ b, k.has x = true := by
  obtain ⟨_, _, _, _, rfl, rfl, ⟨_, _, _, _, rfl, rfl, ⟨_, _, _, _, rfl, rfl,
    ⟨_, _, _, _, rfl, rfl, ho, ha⟩, hc⟩, hb⟩, hp⟩ := h
  obtain ⟨g, e, rfl, rfl, hg, he⟩ := parses_opening ho
  obtain ⟨s, a, s', rfl, rfl, hs, ha, hs'⟩ := parses_argument hk ha
  obtain ⟨rfl, rfl⟩ := parses_literal hc
  obtain ⟨r, b, r', rfl, rfl, hr, hb, hr'⟩ := parses_argument hk hb
  obtain ⟨rfl, rfl⟩ := parses_literal hp
  refine ⟨g, e, s, a, s', r, b, r', by simp, rfl, hg, fun x hx => ?_, fun x hx => ?_⟩
  · simp only [List.mem_append] at hx
    rcases hx with (((hx | hx) | hx) | hx) | hx
    · exact he x hx
    · exact hs x hx
    · exact hs' x hx
    · exact hr x hx
    · exact hr' x hx
  · exact (List.mem_append.1 hx).elim (ha x) (hb x)

end Pattern

end SqlScribe
