import SqlScribe.Proofs.Pattern.Hits

/-!
# Text behind a text

More text behind a text leaves the matches in it as they are, when no run of the pattern gets
stuck at the seam and no match can end in the new text. Both are computed from the pattern and
the text put behind. Main statements:

* `stops_sound`: from a place of the text the search goes the same way with more text behind;
* `replaceAll_append`: replacing leaves the text put behind alone, and the rest as without it.
-/

namespace SqlScribe

/-! ## Places with more text behind -/

/-- The same capture in the text with `w` behind it. -/
def Capture.widen (w : Text) (g : Capture) : Capture := ⟨g.number, g.start ++ w, g.stop ++ w⟩

/-- The same place in the text with `w` behind it. -/
def Cursor.widen (w : Text) (c : Cursor) : Cursor :=
  ⟨c.before, c.rest ++ w, c.captures.map (·.widen w)⟩

/-- The same match in the text with `w` behind it. -/
def Match.widen (w : Text) (m : Match) : Match := { m with after := m.after ++ w }

/-- The same piece of the text with `w` behind it. -/
def Piece.widen (w : Text) : Piece → Piece
  | plain c => plain c
  | hit m => hit (m.widen w)

/-- A place inside of the text `w` that was put behind another. -/
def Cursor.Beyond (w : Text) (c : Cursor) : Prop := c.rest.length < w.length

theorem Capture.text_widen (w : Text) (g : Capture) : (g.widen w).text = g.text := by
  simp only [Capture.text, Capture.widen, List.length_append, Nat.add_sub_add_right]
  exact List.take_append_of_le_length (Nat.sub_le _ _)

theorem Cursor.spanRun_append (k : CharClass) (b : Option Char) (t w : Text) :
    spanRun k b (t ++ w) =
      if (spanRun k b t).2 = [] then spanRun k (spanRun k b t).1 w
      else ((spanRun k b t).1, (spanRun k b t).2 ++ w) := by
  induction t generalizing b with
  | nil => simp [spanRun]
  | cons c t ih =>
    rw [List.cons_append, spanRun, spanRun]
    split
    · exact ih (some c)
    · simp

namespace Pattern

variable {p : Pattern} {c : Cursor} {x : Char} {w : Text} {k k' : Continuation} {hungry : Bool}

/-! ## Ways that stay beyond -/

theorem length_of_mem_ways {d : Cursor} (hd : d ∈ ways p c) : d.rest.length ≤ c.rest.length := by
  obtain ⟨⟨u, hu, -⟩, -⟩ := leads_of_mem_ways hd
  rw [hu, List.length_append]
  exact Nat.le_add_left _ _

theorem length_lt_of_mem_ways (hp : p.takesSome = true) {d : Cursor} (hd : d ∈ ways p c) :
    d.rest.length < c.rest.length := by
  obtain ⟨⟨u, hu, hspells⟩, -⟩ := leads_of_mem_ways hd
  have hpos := List.length_pos_of_ne_nil (ne_nil_of_takesSome hp hspells)
  rw [hu, List.length_append]
  omega

/-- Only the places that the pattern leads to count. -/
theorem first_congr (h : ∀ d ∈ ways p c, k d = k' d) : first p c k = first p c k' := by
  rw [first_eq, first_eq]
  revert h
  induction ways p c with
  | nil => exact fun _ => rfl
  | cons d ds ih =>
    intro h
    rw [List.forall_mem_cons] at h
    rw [List.findSome?_cons, List.findSome?_cons, h.1, ih h.2]

theorem first_eq_none (h : ∀ d ∈ ways p c, k d = none) : first p c k = none := by
  rw [first_eq, List.findSome?_eq_none_iff]
  exact h

theorem first_beyond (hc : c.Beyond w) (h : ∀ d : Cursor, d.Beyond w → k d = none) :
    first p c k = none :=
  first_eq_none fun d hd => h d (Nat.lt_of_le_of_lt (length_of_mem_ways hd) hc)

/-- At the end of a text a pattern that takes something leads nowhere. -/
theorem first_at_end (hp : p.takesSome = true) (hc : c.rest = []) : first p c k = none := by
  refine first_eq_none fun d hd => ?_
  have hlt := length_lt_of_mem_ways hp hd
  rw [hc] at hlt
  exact absurd hlt (Nat.not_lt_zero _)

/-! ## The seam -/

/-- Whether the pattern goes the same way with `x` behind the text: a run that could go on with
`x` must not be what the match ends with. `hungry` says that what follows the pattern takes a
character for certain, so that it fails at the end of the text. -/
def stops (x : Char) : (hungry : Bool) → Pattern → Bool
  | _, empty | _, one _ => true
  | hungry, run k => hungry || !k.has x
  | _, anchor a => a == .wordEdge && !isWordChar x
  | hungry, seq p q => q.stops x hungry && p.stops x (hungry || q.takesSome)
  | hungry, alt p q => p.stops x hungry && q.stops x hungry
  | hungry, star p | hungry, lazyStar p => p.takesSome && p.stops x hungry
  | _, commit _ => false
  | hungry, group _ p => p.stops x hungry

/-- What is done from a place on is done with `x :: w` behind the text too, fails in the text put
behind, and fails at the end of the text when it has to take a character. -/
structure Widens (x : Char) (w : Text) (hungry : Bool) (k k' : Continuation) : Prop where
  same : ∀ d, k' (d.widen (x :: w)) = (k d).map (·.widen (x :: w))
  beyond : ∀ d : Cursor, d.Beyond (x :: w) → k' d = none
  fails : hungry = true → ∀ d : Cursor, d.rest = [] → k d = none

/-- The pattern goes the same way, whatever is done behind it. -/
def Stops (x : Char) (w : Text) (hungry : Bool) (p : Pattern) : Prop :=
  ∀ c k k', Widens x w hungry k k' →
    first p (c.widen (x :: w)) k' = (first p c k).map (·.widen (x :: w))

theorem stops_one (cl : CharClass) : Stops x w hungry (one cl) := by
  rintro ⟨b, _ | ⟨y, t⟩, gs⟩ k k' h
  · simp only [first, Cursor.one?, Cursor.widen, List.nil_append]
    split
    · exact h.beyond _ (Nat.lt_succ_self _)
    · rfl
  · simp only [first, Cursor.one?, Cursor.widen, List.cons_append]
    split
    · exact h.same ⟨some y, t, gs⟩
    · rfl

theorem stops_run {cl : CharClass} (hcl : (hungry || !cl.has x) = true) :
    Stops x w hungry (run cl) := by
  intro c k k' h
  simp only [first]
  by_cases hend : (Cursor.spanRun cl c.before c.rest).2 = []
  · have hsplit := Cursor.spanRun_append cl c.before c.rest (x :: w)
    rw [if_pos hend, Cursor.spanRun] at hsplit
    by_cases hx : cl.has x = true
    · -- the run goes on beyond the seam, and without the text behind it nothing is left
      rw [if_pos hx] at hsplit
      obtain ⟨u, hu, -⟩ := Pattern.spanRun_append cl (some x) w
      have hshort : ((c.widen (x :: w)).run cl).Beyond (x :: w) := by
        have hlength := congrArg List.length hu
        simp only [List.length_append] at hlength
        simp only [Cursor.run, Cursor.widen, Cursor.Beyond, hsplit, List.length_cons]
        omega
      rw [h.beyond _ hshort, h.fails (by simpa [hx] using hcl) _ hend]
      rfl
    · rw [if_neg hx] at hsplit
      rw [← h.same]
      simp only [Cursor.run, Cursor.widen, hsplit, hend, List.nil_append]
  · have hsplit := Cursor.spanRun_append cl c.before c.rest (x :: w)
    rw [if_neg hend] at hsplit
    rw [← h.same]
    simp only [Cursor.run, Cursor.widen, hsplit]

theorem stops_anchor (hx : isWordChar x = false) : Stops x w hungry (anchor .wordEdge) := by
  intro c k k' h
  have hholds : Anchor.holds c.before (c.rest ++ x :: w) .wordEdge
      = Anchor.holds c.before c.rest .wordEdge := by
    simp only [Anchor.holds]
    cases c.rest <;> simp [hx]
  simp only [first, Cursor.widen, hholds]
  split
  · exact h.same c
  · rfl

theorem Stops.seq {q : Pattern} (hp : Stops x w (hungry || q.takesSome) p)
    (hq : Stops x w hungry q) : Stops x w hungry (seq p q) := by
  intro c k k' h
  refine hp c _ _ ⟨fun d => hq d k k' h, fun d hd => first_beyond hd h.beyond,
    fun hfails d hd => ?_⟩
  rcases Bool.or_eq_true_iff.1 hfails with hhungry | htakes
  · refine first_eq_none fun e he => h.fails hhungry e (List.eq_nil_of_length_eq_zero ?_)
    have hle := length_of_mem_ways he
    rw [hd] at hle
    exact Nat.le_zero.1 hle
  · exact first_at_end htakes hd

theorem map_orElse (f : Cursor → Cursor) (a b : Option Cursor) :
    (a <|> b).map f = (a.map f <|> b.map f) := by
  cases a <;> rfl

theorem Stops.alt {q : Pattern} (hp : Stops x w hungry p) (hq : Stops x w hungry q) :
    Stops x w hungry (alt p q) := by
  intro c k k' h
  simp only [first, map_orElse, hp c k k' h, hq c k k' h]

theorem Stops.group (n : Nat) (hp : Stops x w hungry p) : Stops x w hungry (group n p) := by
  intro c k k' h
  refine hp c _ _ ⟨fun d => ?_, fun d hd => h.beyond _ hd, fun hfails d hd => h.fails hfails _ hd⟩
  exact h.same (c.capture n d)

/-! ### Repetitions -/

/-- Goes on only from places nearer to the end. -/
def nearer (c : Cursor) (k : Continuation) : Continuation := fun d =>
  if d.rest.length < c.rest.length then k d else none

/-- Repetitions of a pattern up to `n` times: `rep` goes on at once or behind one more time, in
the order of preference that `choose` says. -/
structure Repeats (p : Pattern) (choose : Option Cursor → Option Cursor → Option Cursor)
    (rep : (n : Nat) → Cursor → Continuation → Option Cursor) : Prop where
  step : ∀ n c k, c.rest.length ≤ n →
    rep n c k = choose (k c) (first p c (nearer c fun d => rep (n - 1) d k))
  map : ∀ f a b, (choose a b).map f = choose (a.map f) (b.map f)
  nothing : choose none none = none

section Repeats

variable {choose : Option Cursor → Option Cursor → Option Cursor}
  {rep : (n : Nat) → Cursor → Continuation → Option Cursor}

theorem Repeats.beyond (h : Repeats p choose rep) (hk : ∀ d : Cursor, d.Beyond w → k d = none)
    {n : Nat} (hn : c.rest.length ≤ n) (hc : c.Beyond w) : rep n c k = none := by
  induction hlength : c.rest.length using Nat.strong_induction_on generalizing c n with
  | _ l ih =>
    subst hlength
    rw [h.step n c k hn, hk c hc, first_eq_none, h.nothing]
    intro d hd
    rw [nearer]
    split
    · next hlt => exact ih _ hlt (by omega) (Nat.lt_trans hlt hc) rfl
    · rfl

/-- The induction is on what is left of the text: each time the pattern takes something. -/
theorem Repeats.stops (h : Repeats p choose rep) (htakes : p.takesSome = true)
    (hp : Stops x w hungry p) (hk : Widens x w hungry k k') {n n' : Nat}
    (hn : c.rest.length ≤ n) (hn' : (c.widen (x :: w)).rest.length ≤ n') :
    rep n' (c.widen (x :: w)) k' = (rep n c k).map (·.widen (x :: w)) := by
  have hwiden : ∀ d : Cursor, (d.widen (x :: w)).rest.length = d.rest.length + (x :: w).length :=
    fun d => List.length_append
  induction hlength : c.rest.length using Nat.strong_induction_on generalizing c n n' with
  | _ l ih =>
    subst hlength
    rw [h.step n c k hn, h.step n' _ k' hn', hk.same, h.map]
    congr 1
    refine hp c _ _ ⟨fun d => ?_, fun d hd => ?_, fun hfails d hd => ?_⟩
    · simp only [nearer, hwiden, Nat.add_lt_add_iff_right] at hn' ⊢
      split
      · next hlt => exact ih _ hlt (by omega) (by rw [hwiden]; omega) rfl
      · rfl
    · rw [nearer]
      split
      · next hlt => exact h.beyond hk.beyond (by omega) hd
      · rfl
    · rw [nearer, h.step (n - 1) d k (by simp [hd]), hk.fails hfails d hd, first_at_end htakes hd,
        h.nothing, ite_self]

end Repeats

theorem repeats_tryLongest (htakes : p.takesSome = true) :
    Repeats p (fun a b => b <|> a) (tryLongest (first p)) where
  step n c k hn := by
    cases n with
    | zero => rw [first_at_end htakes (List.eq_nil_of_length_eq_zero (Nat.le_zero.1 hn))]; rfl
    | succ n =>
      rw [tryLongest]
      congr 1
      exact first_congr fun d hd => (if_pos (length_lt_of_mem_ways htakes hd)).symm
  map f a b := map_orElse f b a
  nothing := rfl

theorem repeats_tryShortest (htakes : p.takesSome = true) :
    Repeats p (fun a b => a <|> b) (tryShortest (first p)) where
  step n c k hn := by
    cases n with
    | zero =>
      rw [first_at_end htakes (List.eq_nil_of_length_eq_zero (Nat.le_zero.1 hn)), tryShortest]
      cases k c <;> rfl
    | succ n =>
      rw [tryShortest, first_congr fun d hd =>
        (if_pos (length_lt_of_mem_ways htakes hd)).symm]
      rfl
  map f a b := map_orElse f a b
  nothing := rfl

/-- **The same way with more text behind.** -/
theorem stops_sound (hp : p.stops x hungry = true) : Stops x w hungry p := by
  induction p generalizing hungry with
  | empty => exact fun c k k' h => h.same c
  | one cl => exact stops_one cl
  | run cl => exact stops_run hp
  | anchor a =>
    rw [Pattern.stops, Bool.and_eq_true, beq_iff_eq, Bool.not_eq_true'] at hp
    exact hp.1 ▸ stops_anchor hp.2
  | seq p q ihp ihq =>
    rw [Pattern.stops, Bool.and_eq_true] at hp
    exact (ihp hp.2).seq (ihq hp.1)
  | alt p q ihp ihq =>
    rw [Pattern.stops, Bool.and_eq_true] at hp
    exact (ihp hp.1).alt (ihq hp.2)
  | star p ih =>
    rw [Pattern.stops, Bool.and_eq_true] at hp
    exact fun c k k' h =>
      (repeats_tryLongest hp.1).stops hp.1 (ih hp.2) h (Nat.le_refl _) (Nat.le_refl _)
  | lazyStar p ih =>
    rw [Pattern.stops, Bool.and_eq_true] at hp
    exact fun c k k' h =>
      (repeats_tryShortest hp.1).stops hp.1 (ih hp.2) h (Nat.le_refl _) (Nat.le_refl _)
  | commit p => exact absurd hp Bool.false_ne_true
  | group n p ih => exact (ih hp).group n

/-! ## Matches that end in the text -/

/-- Whether every text of the language that is not empty ends in a character of a class that `f`
picks. -/
def endsIn (f : CharClass → Bool) : Pattern → Bool
  | empty | anchor _ => true
  | one k | run k => f k
  | seq p q => q.endsIn f && (p.endsIn f || q.takesSome)
  | alt p q => p.endsIn f && q.endsIn f
  | star p | lazyStar p | commit p | group _ p => p.endsIn f

theorem last_of_endsIn {f : CharClass → Bool} {u : Text} (hf : p.endsIn f = true)
    (hu : p.Spells u) {y : Char} (hy : u.getLast? = some y) : ∃ k, f k = true ∧ k.has y = true := by
  have hpieces : ∀ {vs : List Text} {q : Pattern},
      (∀ {v}, q.Spells v → v.getLast? = some y → ∃ k, f k = true ∧ k.has y = true) →
      (∀ v ∈ vs, q.Spells v) → vs.flatten.getLast? = some y →
      ∃ k, f k = true ∧ k.has y = true := by
    intro vs q hq hall hlast
    induction vs with
    | nil => exact absurd hlast (by simp)
    | cons v vs ih =>
      rw [List.forall_mem_cons] at hall
      rw [List.flatten_cons, List.getLast?_append, Option.or_eq_some_iff] at hlast
      exact hlast.elim (ih hall.2) fun h => hq hall.1 h.2
  induction p generalizing u with
  | empty | anchor a =>
    obtain rfl : u = [] := hu
    exact absurd hy (by simp)
  | one k =>
    obtain ⟨z, rfl, hz⟩ := hu
    exact ⟨k, hf, Option.some.inj hy ▸ hz⟩
  | run k => exact ⟨k, hf, hu y (List.mem_of_getLast? hy)⟩
  | seq p q ihp ihq =>
    rw [endsIn, Bool.and_eq_true, Bool.or_eq_true] at hf
    obtain ⟨v, r, rfl, hv, hr⟩ := hu
    rw [List.getLast?_append, Option.or_eq_some_iff] at hy
    rcases hy with hy | ⟨hnone, hy⟩
    · exact ihq hf.1 hr hy
    · rcases hf.2 with hp | hq
      · exact ihp hp hv hy
      · exact absurd (List.getLast?_eq_none_iff.1 hnone) (ne_nil_of_takesSome hq hr)
  | alt p q ihp ihq =>
    rw [endsIn, Bool.and_eq_true] at hf
    exact hu.elim (fun h => ihp hf.1 h hy) fun h => ihq hf.2 h hy
  | star p ih | lazyStar p ih =>
    obtain ⟨vs, rfl, hall⟩ := hu
    exact hpieces (fun hv hlast => ih hf hv hlast) hall hy
  | commit p ih => exact ih hf hu hy
  | group n p ih => exact ih hf hu hy

/-- Whether the pattern finds in a text with `x :: w` behind it what it finds in the text alone. -/
def blindTo (x : Char) (w : Text) (p : Pattern) : Bool :=
  p.takesSome && p.stops x false && p.endsIn fun k => (x :: w).all fun y => !k.has y

theorem blindTo_iff : p.blindTo x w = true ↔
    p.takesSome = true ∧ p.stops x false = true ∧
      p.endsIn (fun k => (x :: w).all fun y => !k.has y) = true := by
  rw [blindTo, Bool.and_eq_true, Bool.and_eq_true, and_assoc]

section Blind

variable {b : Option Char} {t : Text} (h : p.blindTo x w = true)
include h

/-- What the pattern spells ends in a character that is not in the text put behind. -/
theorem exists_last {u : Text} (hu : p.Spells u) : ∃ v y, u = v ++ [y] ∧ y ∉ x :: w := by
  obtain ⟨htakes, -, hends⟩ := blindTo_iff.1 h
  rcases List.eq_nil_or_concat u with rfl | ⟨v, y, rfl⟩
  · exact absurd rfl (ne_nil_of_takesSome htakes hu)
  · rw [List.concat_eq_append] at hu ⊢
    obtain ⟨k, hk, hhas⟩ := last_of_endsIn hends hu List.getLast?_concat
    refine ⟨v, y, rfl, fun hy => ?_⟩
    simpa [hhas] using List.all_eq_true.1 hk y hy

/-- No match reaches into the text put behind. -/
theorem not_beyond {u r : Text} (hu : p.Spells u) (hrest : u ++ r = t ++ x :: w) :
    (x :: w).length ≤ r.length := by
  obtain ⟨v, y, rfl, hy⟩ := exists_last h hu
  by_contra hlt
  have hlength := congrArg List.length hrest
  simp only [List.length_append, List.length_cons, List.length_nil] at hlength hlt
  rw [List.append_assoc] at hrest
  obtain ⟨v', rfl⟩ := List.prefix_of_prefix_length_le (List.prefix_append t (x :: w))
    (hrest ▸ List.prefix_append v ([y] ++ r)) (by omega)
  rw [List.append_assoc, List.append_cancel_left_eq] at hrest
  exact hy (hrest ▸ by simp)

/-- With more text behind the same match is found. -/
theorem matchAt?_append : p.matchAt? b (t ++ x :: w) = (p.matchAt? b t).map (·.widen (x :: w)) := by
  obtain ⟨htakes, hstops, -⟩ := blindTo_iff.1 h
  let inside : Continuation := fun d =>
    if d.rest.length < (x :: w).length then none else some d
  have hinside : first p ⟨b, t ++ x :: w, []⟩ some = first p ⟨b, t ++ x :: w, []⟩ inside := by
    refine first_congr fun d hd => ?_
    obtain ⟨⟨u, hu, hspells⟩, -⟩ := leads_of_mem_ways hd
    exact (if_neg (Nat.not_lt.2 (not_beyond h hspells hu.symm))).symm
  have hwiden : first p ⟨b, t ++ x :: w, []⟩ inside
      = (first p ⟨b, t, []⟩ some).map (·.widen (x :: w)) := by
    refine stops_sound hstops ⟨b, t, []⟩ some inside ⟨fun d => ?_, fun d hd => if_pos hd, nofun⟩
    refine if_neg (Nat.not_lt.2 ?_)
    rw [Cursor.widen, List.length_append]
    exact Nat.le_add_left _ _
  unfold matchAt?
  rw [hinside, hwiden]
  cases hd : first p ⟨b, t, []⟩ some with
  | none => rfl
  | some d =>
    have hlength : (t ++ x :: w).length - (d.widen (x :: w)).rest.length
        = t.length - d.rest.length := by
      simp only [Cursor.widen, List.length_append, Nat.add_sub_add_right]
    have hle : t.length - d.rest.length ≤ t.length := Nat.sub_le _ _
    simp only [Option.map_some, hlength, List.take_append_of_le_length hle]
    split
    · rfl
    · have hdrop : (t.take (t.length - d.rest.length)).length ≤ t.length := by
        rw [List.length_take]
        exact Nat.min_le_right _ _
      simp only [Option.map_some, Match.widen, Cursor.widen, List.map_map,
        List.drop_append_of_le_length hdrop]
      congr 3
      funext g
      exact congrArg _ (Capture.text_widen (x :: w) g)

/-- Nothing is found in the text put behind. -/
theorem piecesFrom_behind {v : Text} (hv : v <:+ x :: w) : piecesFrom p b 0 v = v.map .plain := by
  induction v generalizing b with
  | nil => rfl
  | cons c v ih =>
    rw [piecesFrom_of_none, ih ((List.suffix_cons c v).trans hv), List.map_cons]
    cases hm : p.matchAt? b (c :: v) with
    | none => rfl
    | some m =>
      have hof := isOf_of_matchAt? hm
      obtain ⟨u, y, hu, hy⟩ := exists_last h hof.spells
      exact absurd (hv.subset (hof.mem_of_mem_text (hu ▸ by simp))) hy

theorem piecesFrom_append {skip : Nat} (hskip : skip ≤ t.length) :
    piecesFrom p b skip (t ++ x :: w)
      = (piecesFrom p b skip t).map (·.widen (x :: w)) ++ (x :: w).map .plain := by
  induction t generalizing b skip with
  | nil =>
    obtain rfl := Nat.le_zero.1 hskip
    exact piecesFrom_behind h List.suffix_rfl
  | cons c t ih =>
    cases skip with
    | succ skip => exact ih (Nat.le_of_succ_le_succ hskip)
    | zero =>
      have happend := matchAt?_append h (b := b) (t := c :: t)
      rw [List.cons_append] at happend ⊢
      cases hm : p.matchAt? b (c :: t) with
      | none =>
        rw [hm] at happend
        rw [piecesFrom_of_none hm, piecesFrom_of_none happend, ih (Nat.zero_le _)]
        rfl
      | some m =>
        rw [hm] at happend
        have hlength := congrArg List.length (matchAt?_text hm).2
        simp only [List.length_append, List.length_cons] at hlength
        rw [piecesFrom_of_some hm, piecesFrom_of_some happend, ih (by simp [Match.widen]; omega)]
        rfl

/-- **More text behind.** A replacement that does not look behind the match leaves the text put
behind alone, and the rest is as it is without that text. -/
theorem replaceAll_append {f : Match → Text} (hf : ∀ m, f (m.widen (x :: w)) = f m) :
    p.replaceAll f (t ++ x :: w) = p.replaceAll f t ++ x :: w := by
  rw [replaceAll_eq, replaceAll_eq, pieces, piecesFrom_append h (Nat.zero_le _),
    List.flatMap_append, List.flatMap_map, List.flatMap_map]
  congr 1
  · refine List.flatMap_congr fun piece _ => ?_
    cases piece with
    | plain c => rfl
    | hit m => exact hf m
  · exact List.flatMap_singleton' (x :: w)

end Blind

end Pattern

end SqlScribe
