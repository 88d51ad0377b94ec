import SqlScribe.Pattern.Basic

/-!
# The language of a pattern

What a way through a pattern takes from a text. `Pattern.Spells` is the language of a
pattern when its conditions on places are left out, and `Pattern.groups` lists the patterns
of its groups. Main statements:

* `leads_of_mem_ways`: a way takes a text of the language from the front, and what it
  captures lies within that text and is spelled by the pattern of its group;
* `holds_of_mem_ways`: a condition at the front of a pattern holds where a way begins.
-/

namespace SqlScribe

/-- A class with neither the long s nor the Kelvin sign has no forms of letters beyond the case. -/
theorem simpleFold_of_class {p : Char → Bool} (hlong : p 'ſ' = false) (hkelvin : p '\u212a' = false)
    {c : Char} (h : p c = true) : simpleFold c = c.toLower := by
  have hne : ∀ d, p d = false → ¬ (c == d) = true := fun d hd hcd =>
    Bool.false_ne_true (hd.symm.trans (eq_of_beq hcd ▸ h))
  rw [simpleFold, if_neg (hne _ hlong), if_neg (hne _ hkelvin)]

namespace Pattern

/-! ## Spelling -/

/-- The texts that a way through the pattern may take. -/
def Spells : Pattern → Text → Prop
  | empty, u => u = []
  | one k, u => ∃ x, u = [x] ∧ k.has x = true
  | run k, u => ∀ x ∈ u, k.has x = true
  | anchor _, u => u = []
  | seq p q, u => ∃ v w, u = v ++ w ∧ p.Spells v ∧ q.Spells w
  | alt p q, u => p.Spells u ∨ q.Spells u
  | star p, u => ∃ vs : List Text, u = vs.flatten ∧ ∀ v ∈ vs, p.Spells v
  | lazyStar p, u => ∃ vs : List Text, u = vs.flatten ∧ ∀ v ∈ vs, p.Spells v
  | commit p, u => p.Spells u
  | group _ p, u => p.Spells u

/-- The groups of the pattern, by their numbers. -/
def groups : Pattern → List (Nat × Pattern)
  | empty | one _ | run _ | anchor _ => []
  | seq p q | alt p q => p.groups ++ q.groups
  | star p | lazyStar p | commit p => p.groups
  | group n p => (n, p) :: p.groups

theorem spells_literal {w u : Text} : (literal w).Spells u ↔ u = w := by
  induction w generalizing u with
  | nil => exact Iff.rfl
  | cons c w ih =>
    constructor
    · rintro ⟨v, r, rfl, ⟨x, rfl, hx⟩, hr⟩
      rw [CharClass.has, List.contains_iff_mem, List.mem_singleton] at hx
      rw [hx, ih.1 hr, List.singleton_append]
    · rintro rfl
      exact ⟨[c], w, rfl, ⟨c, rfl, by simp [CharClass.has]⟩, ih.2 rfl⟩

/-- Some characters of a class, as many as are said. -/
theorem of_spells_times {n : Nat} {k : CharClass} {u : Text} (h : (times n (one k)).Spells u) :
    u.length = n ∧ ∀ c ∈ u, k.has c = true := by
  induction n generalizing u with
  | zero =>
    obtain rfl : u = [] := h
    exact ⟨rfl, fun _ hc => absurd hc List.not_mem_nil⟩
  | succ n ih =>
    obtain ⟨v, w, rfl, ⟨x, rfl, hx⟩, hw⟩ := h
    obtain ⟨hlength, hmem⟩ := ih hw
    refine ⟨by simp [hlength], fun c hc => ?_⟩
    rcases List.mem_cons.1 hc with rfl | hc
    · exact hx
    · exact hmem c hc

/-- Some characters of a class, as many as are said at most. -/
theorem of_spells_upTo {n : Nat} {k : CharClass} {u : Text} (h : (upTo n (one k)).Spells u) :
    u.length ≤ n ∧ ∀ c ∈ u, k.has c = true := by
  induction n generalizing u with
  | zero =>
    obtain rfl : u = [] := h
    exact ⟨Nat.le_refl 0, fun _ hc => absurd hc List.not_mem_nil⟩
  | succ n ih =>
    rcases h with ⟨v, w, rfl, ⟨x, rfl, hx⟩, hw⟩ | h
    · obtain ⟨hlength, hmem⟩ := ih hw
      refine ⟨by simpa using hlength, fun c hc => ?_⟩
      rcases List.mem_cons.1 hc with rfl | hc
      · exact hx
      · exact hmem c hc
    · obtain rfl : u = [] := h
      exact ⟨Nat.zero_le _, fun _ hc => absurd hc List.not_mem_nil⟩

/-! ## Ways -/

/-- `g` lies between `c` and `d`, and the pattern of its group spells it. -/
def Captured (p : Pattern) (c d : Cursor) (g : Capture) : Prop :=
  ∃ q, (g.number, q) ∈ p.groups ∧ ∃ a u b, c.rest = a ++ u ++ b ++ d.rest ∧
    g.start = u ++ b ++ d.rest ∧ g.stop = b ++ d.rest ∧ q.Spells u

/-- What is true of a way through the pattern from `c` to `d`. -/
structure Leads (p : Pattern) (c d : Cursor) : Prop where
  spelled : ∃ u, c.rest = u ++ d.rest ∧ p.Spells u
  captured : ∃ new, d.captures = new ++ c.captures ∧ ∀ g ∈ new, Captured p c d g

variable {p q : Pattern} {c d e : Cursor}

/-- What was captured on a part of a way was captured on the whole of it. -/
theorem Captured.widen {c' d' : Cursor} {g : Capture} (h : Captured p c d g)
    (hsub : p.groups ⊆ q.groups) (hc : ∃ a, c'.rest = a ++ c.rest)
    (hd : ∃ b, d.rest = b ++ d'.rest) : Captured q c' d' g := by
  obtain ⟨r, hr, a, u, b, hrest, hstart, hstop, hu⟩ := h
  obtain ⟨a', ha⟩ := hc
  obtain ⟨b', hb⟩ := hd
  refine ⟨r, hsub hr, a' ++ a, u, b ++ b', ?_, ?_, ?_, hu⟩
  · rw [ha, hrest, hb]
    simp only [List.append_assoc]
  · rw [hstart, hb]
    simp only [List.append_assoc]
  · rw [hstop, hb]
    simp only [List.append_assoc]

theorem Leads.of_no_capture {u : Text} (hrest : c.rest = u ++ d.rest) (hu : p.Spells u)
    (hcap : d.captures = c.captures) : Leads p c d :=
  ⟨⟨u, hrest, hu⟩, [], hcap, fun _ hg => absurd hg List.not_mem_nil⟩

/-- Two ways one after the other, through patterns whose groups `q` has. -/
theorem Leads.trans {p₁ p₂ : Pattern} (h₁ : Leads p₁ c d) (h₂ : Leads p₂ d e)
    (hsub₁ : p₁.groups ⊆ q.groups) (hsub₂ : p₂.groups ⊆ q.groups)
    (hspell : ∀ v w, p₁.Spells v → p₂.Spells w → q.Spells (v ++ w)) : Leads q c e := by
  obtain ⟨⟨u, hu, hsu⟩, new, hnew, hcap⟩ := h₁
  obtain ⟨⟨v, hv, hsv⟩, new', hnew', hcap'⟩ := h₂
  refine ⟨⟨u ++ v, by rw [hu, hv, List.append_assoc], hspell u v hsu hsv⟩,
    new' ++ new, by rw [hnew', hnew, List.append_assoc], fun g hg => ?_⟩
  rcases List.mem_append.1 hg with hg | hg
  · exact (hcap' g hg).widen hsub₂ ⟨u, hu⟩ ⟨[], rfl⟩
  · exact (hcap g hg).widen hsub₁ ⟨[], rfl⟩ ⟨v, hv⟩

theorem Leads.mono (h : Leads p c d) (hsub : p.groups ⊆ q.groups)
    (hspell : ∀ v, p.Spells v → q.Spells v) : Leads q c d := by
  obtain ⟨⟨u, hu, hsu⟩, new, hnew, hcap⟩ := h
  exact ⟨⟨u, hu, hspell u hsu⟩, new, hnew,
    fun g hg => (hcap g hg).widen hsub ⟨[], rfl⟩ ⟨[], rfl⟩⟩

theorem leads_star_refl (p : Pattern) (c : Cursor) : Leads (star p) c c :=
  .of_no_capture (u := []) rfl ⟨[], rfl, fun _ hv => absurd hv List.not_mem_nil⟩ rfl

theorem Leads.star_step (h₁ : Leads p c d) (h₂ : Leads (star p) d e) : Leads (star p) c e := by
  refine h₁.trans h₂ (List.Subset.refl _) (List.Subset.refl _) ?_
  rintro v w hv ⟨vs, rfl, hvs⟩
  refine ⟨v :: vs, rfl, fun x hx => ?_⟩
  rcases List.mem_cons.1 hx with rfl | hx
  · exact hv
  · exact hvs x hx

/-- Up to `n` steps, longer ways first. -/
theorem leads_of_mem_longestFirst {step : Cursor → List Cursor}
    (h : ∀ c d, d ∈ step c → Leads p c d) (n : Nat) (hd : d ∈ longestFirst step n c) :
    Leads (star p) c d := by
  induction n generalizing c with
  | zero => exact List.mem_singleton.1 hd ▸ leads_star_refl p c
  | succ n ih =>
    rcases List.mem_append.1 hd with hd | hd
    · obtain ⟨x, hx, hd⟩ := List.mem_flatMap.1 hd
      exact (h c x hx).star_step (ih hd)
    · exact List.mem_singleton.1 hd ▸ leads_star_refl p c

/-- Up to `n` steps, shorter ways first. -/
theorem leads_of_mem_shortestFirst {step : Cursor → List Cursor}
    (h : ∀ c d, d ∈ step c → Leads p c d) (n : Nat) (hd : d ∈ shortestFirst step n c) :
    Leads (star p) c d := by
  induction n generalizing c with
  | zero => exact List.mem_singleton.1 hd ▸ leads_star_refl p c
  | succ n ih =>
    rcases List.mem_cons.1 hd with rfl | hd
    · exact leads_star_refl p d
    · obtain ⟨x, hx, hd⟩ := List.mem_flatMap.1 hd
      exact (h c x hx).star_step (ih hd)

theorem leads_one {k : CharClass} (hd : d ∈ ways (one k) c) : Leads (one k) c d := by
  rw [ways, Option.mem_toList, Cursor.one?] at hd
  split at hd
  · exact absurd hd (by simp)
  · next x t hrest =>
    split at hd
    · next hx =>
      cases hd
      exact .of_no_capture (u := [x]) (by rw [hrest]; rfl) ⟨x, rfl, hx⟩ rfl
    · exact absurd hd (by simp)

/-- A run takes characters of its class from the front. -/
theorem spanRun_append (k : CharClass) (b : Option Char) (t : Text) :
    ∃ u, t = u ++ (Cursor.spanRun k b t).2 ∧ ∀ x ∈ u, k.has x = true := by
  induction t generalizing b with
  | nil => exact ⟨[], rfl, by simp⟩
  | cons x t ih =>
    unfold Cursor.spanRun
    split
    · next hx =>
      obtain ⟨u, hu, hall⟩ := ih (some x)
      refine ⟨x :: u, by rw [List.cons_append, ← hu], fun y hy => ?_⟩
      rcases List.mem_cons.1 hy with rfl | hy
      · exact hx
      · exact hall y hy
    · exact ⟨[], rfl, by simp⟩

/-- **What a way takes.** Every way through a pattern takes a text of its language from
the front, and captures parts of that text. -/
theorem leads_of_mem_ways (hd : d ∈ ways p c) : Leads p c d := by
  induction p generalizing c d with
  | empty => exact List.mem_singleton.1 hd ▸ .of_no_capture (u := []) rfl rfl rfl
  | one k => exact leads_one hd
  | run k =>
    obtain rfl := List.mem_singleton.1 hd
    obtain ⟨u, hu, hall⟩ := spanRun_append k c.before c.rest
    exact .of_no_capture hu hall rfl
  | anchor a =>
    rw [ways] at hd
    split at hd
    · exact List.mem_singleton.1 hd ▸ .of_no_capture (u := []) rfl rfl rfl
    · exact absurd hd List.not_mem_nil
  | seq p q ihp ihq =>
    obtain ⟨x, hx, hd⟩ := List.mem_flatMap.1 hd
    exact (ihp hx).trans (ihq hd) (List.subset_append_left _ _) (List.subset_append_right _ _)
      fun v w hv hw => ⟨v, w, rfl, hv, hw⟩
  | alt p q ihp ihq =>
    rcases List.mem_append.1 hd with hd | hd
    · exact (ihp hd).mono (List.subset_append_left _ _) fun v hv => Or.inl hv
    · exact (ihq hd).mono (List.subset_append_right _ _) fun v hv => Or.inr hv
  | star p ih => exact leads_of_mem_longestFirst (fun _ _ => ih) _ hd
  | lazyStar p ih =>
    exact (leads_of_mem_shortestFirst (fun _ _ => ih) _ hd).mono (List.Subset.refl _)
      fun _ hv => hv
  | commit p ih =>
    exact (ih (List.mem_of_mem_take hd)).mono (List.Subset.refl _) fun _ hv => hv
  | group n p ih =>
    obtain ⟨x, hx, rfl⟩ := List.mem_map.1 hd
    obtain ⟨⟨u, hu, hsu⟩, new, hnew, hcap⟩ := ih hx
    refine ⟨⟨u, hu, hsu⟩, ⟨n, c.rest, x.rest⟩ :: new, by rw [Cursor.capture, hnew]; rfl, ?_⟩
    intro g hg
    rcases List.mem_cons.1 hg with rfl | hg
    · exact ⟨p, List.mem_cons_self, [], u, [], by simp [Cursor.capture, hu],
        by simp [Cursor.capture, hu], by simp [Cursor.capture], hsu⟩
    · exact (hcap g hg).widen (List.subset_cons_self _ _) ⟨[], rfl⟩ ⟨[], rfl⟩

/-! ## Conditions at the front -/

/-- Whether every way through the pattern begins with the condition `a`. -/
def beginsAt (a : Anchor) : Pattern → Bool
  | anchor b => a == b
  | seq p _ => p.beginsAt a
  | alt p q => p.beginsAt a && q.beginsAt a
  | commit p | group _ p => p.beginsAt a
  | empty | one _ | run _ | star _ | lazyStar _ => false

theorem holds_of_mem_ways {a : Anchor} (ha : p.beginsAt a = true) (hd : d ∈ ways p c) :
    a.holds c.before c.rest = true := by
  induction p generalizing c d with
  | empty => exact absurd ha Bool.false_ne_true
  | one k => exact absurd ha Bool.false_ne_true
  | run k => exact absurd ha Bool.false_ne_true
  | star p => exact absurd ha Bool.false_ne_true
  | lazyStar p => exact absurd ha Bool.false_ne_true
  | anchor b =>
    rw [beginsAt, beq_iff_eq] at ha
    subst ha
    rw [ways] at hd
    split at hd
    · next h => exact h
    · exact absurd hd List.not_mem_nil
  | seq p q ihp =>
    obtain ⟨x, hx, -⟩ := List.mem_flatMap.1 hd
    exact ihp ha hx
  | alt p q ihp ihq =>
    rw [beginsAt, Bool.and_eq_true] at ha
    rcases List.mem_append.1 hd with hd | hd
    · exact ihp ha.1 hd
    · exact ihq ha.2 hd
  | commit p ih => exact ih ha (List.mem_of_mem_take hd)
  | group n p ih =>
    obtain ⟨x, hx, -⟩ := List.mem_map.1 hd
    exact ih ha hx

end Pattern

end SqlScribe
