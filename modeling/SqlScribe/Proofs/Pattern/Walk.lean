import Mathlib.Data.List.TakeWhile
import SqlScribe.Dialect.Call
import SqlScribe.Proofs.Pattern.Trace

/-!
# Following a pattern through a text

Where the search of a pattern leads in a text of which the first part is known: one equation for
each of the patterns that the patterns of calls are put together from. Main statements:

* `first_lazyStar`: a lazy repetition goes on until the rest of the search succeeds;
* `first_star`: a repetition takes all the texts that are steps of it;
* `first_argument`: an argument is captured without the blanks around it;
* `matchAt?_of_first`: the match that a search has found.
-/

namespace SqlScribe

namespace Pattern

variable {b : Option Char} {x : Char} {t u r w : Text} {cs : List Capture} {k : CharClass}
  {K : Continuation} {d : Cursor}

@[simp] theorem first_append (p q : Pattern) (c : Cursor) (K : Continuation) :
    first (p ++ q) c K = first p c fun d => first q d K := rfl

@[simp] theorem first_group (n : Nat) (p : Pattern) (c : Cursor) (K : Continuation) :
    first (group n p) c K = first p c fun d => K (c.capture n d) := rfl

theorem first_one_of_has (hx : k.has x = true) :
    first (one k) ⟨b, x :: t, cs⟩ K = K ⟨some x, t, cs⟩ := by
  simp [first, Cursor.one?, hx]

theorem first_one_of_not_has (hx : ∀ y, t.head? = some y → k.has y = false) :
    first (one k) ⟨b, t, cs⟩ K = none := by
  cases t with
  | nil => rfl
  | cons x t => simp [first, Cursor.one?, hx x rfl]

/-! ## Literals and letters -/

theorem first_literal (w r : Text) :
    first (literal w) ⟨b, w ++ r, cs⟩ K = K ⟨w.getLast?.or b, r, cs⟩ := by
  induction w generalizing b with
  | nil => rfl
  | cons x w ih =>
    rw [Text.getLast?_cons_or, ← ih]
    exact first_one_of_has (by simp [CharClass.has])

/-- A literal is there or not. -/
theorem first_literal_eq (w t : Text) : first (literal w) ⟨b, t, cs⟩ K =
    if w.isPrefixOf t then K ⟨w.getLast?.or b, t.drop w.length, cs⟩ else none := by
  induction w generalizing b t with
  | nil => rfl
  | cons x w ih =>
    show first (one (.among [x])) ⟨b, t, cs⟩ (fun d => first (literal w) d K) = _
    cases t with
    | nil => rfl
    | cons y t =>
      by_cases hxy : x = y
      · subst hxy
        rw [first_one_of_has (by simp [CharClass.has]), ih, Text.getLast?_cons_or]
        simp
      · rw [first_one_of_not_has fun z hz => by
          rw [← Option.some.inj hz]
          simpa [CharClass.has] using Ne.symm hxy]
        simp [hxy]

theorem first_literal_of_ne {x : Char} (h : t.head? ≠ some x) :
    first (literal [x]) ⟨b, t, cs⟩ K = none := by
  refine first_one_of_not_has fun y hy => ?_
  simp only [CharClass.has, List.contains_eq_mem, List.mem_singleton, decide_eq_false_iff_not]
  rintro rfl
  exact h hy

/-- The text in any case: the forms of a letter are the same. -/
def SameLetters (g w : Text) : Prop := g.map simpleFold = w.map simpleFold

instance (g w : Text) : Decidable (SameLetters g w) := inferInstanceAs (Decidable (_ = _))

theorem first_letters {g w : Text} (h : SameLetters g w) (r : Text) :
    first (letters w) ⟨b, g ++ r, cs⟩ K = K ⟨g.getLast?.or b, r, cs⟩ := by
  induction w generalizing b g with
  | nil =>
    obtain rfl : g = [] := List.map_eq_nil_iff.1 h
    rfl
  | cons y w ih =>
    cases g with
    | nil => exact absurd h (by simp [SameLetters])
    | cons x g =>
      obtain ⟨hx, hg⟩ := List.cons.inj h
      have hhas : CharClass.has (.letter y) x = true := by simp [CharClass.has, hx]
      rw [Text.getLast?_cons_or, ← ih hg]
      exact first_one_of_has hhas

theorem spells_letters {w u : Text} : (letters w).Spells u ↔ SameLetters u w := by
  induction w generalizing u with
  | nil => exact List.map_eq_nil_iff.symm
  | cons y w ih =>
    constructor
    · rintro ⟨v, r, rfl, ⟨x, rfl, hx⟩, hr⟩
      have hfold : simpleFold y = simpleFold x := by simpa [CharClass.has] using hx
      rw [SameLetters, List.singleton_append, List.map_cons, List.map_cons, hfold, ih.1 hr]
    · intro h
      cases u with
      | nil => exact absurd h (by simp [SameLetters])
      | cons x u =>
        obtain ⟨hx, hu⟩ := List.cons.inj h
        exact ⟨[x], u, rfl, ⟨x, rfl, by simp [CharClass.has, hx]⟩, ih.2 hu⟩

/-! ## Runs and repetitions -/

theorem first_run (k : CharClass) (c : Cursor) (K : Continuation) :
    first (run k) c K =
      K ⟨(c.rest.takeWhile k.has).getLast?.or c.before, c.rest.dropWhile k.has, c.captures⟩ := by
  rw [first, Cursor.run, spanRun_eq]

theorem first_run_append (hu : ∀ y ∈ u, k.has y = true)
    (hr : ∀ y, r.head? = some y → k.has y = false) :
    first (run k) ⟨b, u ++ r, cs⟩ K = K ⟨u.getLast?.or b, r, cs⟩ := by
  rw [first_run, Text.takeWhile_append_of_head hu hr, Text.dropWhile_append_of_head hu hr]

theorem first_blanks_append (hu : ∀ y ∈ u, isBlank y = true)
    (hr : ∀ y, r.head? = some y → isBlank y = false) :
    first blanks ⟨b, u ++ r, cs⟩ K = K ⟨u.getLast?.or b, r, cs⟩ :=
  first_run_append hu hr

/-- A run is empty in front of a character that is not of its class. -/
theorem first_run_stop (hr : ∀ y, r.head? = some y → k.has y = false) :
    first (run k) ⟨b, r, cs⟩ K = K ⟨b, r, cs⟩ := first_run_append (u := []) (by simp) hr

theorem first_blanks_stop (hr : ∀ y, r.head? = some y → isBlank y = false) :
    first blanks ⟨b, r, cs⟩ K = K ⟨b, r, cs⟩ := first_run_stop hr

theorem first_times {n : Nat} (hn : u.length = n) (hu : ∀ y ∈ u, k.has y = true) :
    first (times n (one k)) ⟨b, u ++ r, cs⟩ K = K ⟨u.getLast?.or b, r, cs⟩ := by
  induction u generalizing n b with
  | nil =>
    subst hn
    rfl
  | cons x u ih =>
    subst hn
    obtain ⟨hx, hu⟩ := List.forall_mem_cons.1 hu
    rw [List.length_cons, times, first_append, List.cons_append, first_one_of_has hx,
      Text.getLast?_cons_or]
    exact ih rfl hu

/-- With too few characters of the class there is no way through. -/
theorem first_times_eq_none {n : Nat} (h : (t.takeWhile k.has).length < n) :
    first (times n (one k)) ⟨b, t, cs⟩ K = none := by
  induction n generalizing b t with
  | zero => exact absurd h (Nat.not_lt_zero _)
  | succ n ih =>
    rw [times, first_append]
    cases t with
    | nil => exact first_one_of_not_has (by simp)
    | cons x t =>
      cases hx : k.has x with
      | false => exact first_one_of_not_has fun y hy => Option.some.inj hy ▸ hx
      | true =>
        rw [List.takeWhile_cons_of_pos hx, List.length_cons] at h
        rw [first_one_of_has hx]
        exact ih (by omega)

/-- As many characters of the class are taken as there are, if the rest of the search succeeds from
there. -/
theorem first_upTo {n : Nat} (hn : u.length ≤ n) (hu : ∀ y ∈ u, k.has y = true)
    (hr : ∀ y, r.head? = some y → k.has y = false) (hK : K ⟨u.getLast?.or b, r, cs⟩ = some d) :
    first (upTo n (one k)) ⟨b, u ++ r, cs⟩ K = some d := by
  induction n generalizing b u with
  | zero =>
    obtain rfl := List.length_eq_zero_iff.1 (Nat.le_zero.1 hn)
    exact hK
  | succ n ih =>
    show (first (one k ++ upTo n (one k)) ⟨b, u ++ r, cs⟩ K <|> K ⟨b, u ++ r, cs⟩) = some d
    rw [first_append]
    cases u with
    | nil =>
      rw [List.nil_append, first_one_of_not_has hr]
      exact hK
    | cons x u =>
      obtain ⟨hx, hu⟩ := List.forall_mem_cons.1 hu
      rw [Text.getLast?_cons_or] at hK
      rw [List.cons_append, first_one_of_has hx, ih (Nat.le_of_succ_le_succ hn) hu hK]
      rfl

/-- Where the rest of the search fails behind each number of characters there is no way through. -/
theorem first_upTo_eq_none {n : Nat}
    (h : ∀ v s, t = v ++ s → v.length ≤ n → (∀ y ∈ v, k.has y = true) →
      K ⟨v.getLast?.or b, s, cs⟩ = none) : first (upTo n (one k)) ⟨b, t, cs⟩ K = none := by
  induction n generalizing b t with
  | zero => exact h [] t rfl (Nat.zero_le _) (by simp)
  | succ n ih =>
    show (first (one k ++ upTo n (one k)) ⟨b, t, cs⟩ K <|> K ⟨b, t, cs⟩) = none
    have hnow : K ⟨b, t, cs⟩ = none := h [] t rfl (Nat.zero_le _) (by simp)
    rw [first_append, hnow]
    cases t with
    | nil => rw [first_one_of_not_has (by simp)]; rfl
    | cons x t =>
      cases hx : k.has x with
      | false =>
        rw [first_one_of_not_has fun y hy => Option.some.inj hy ▸ hx]
        rfl
      | true =>
        rw [first_one_of_has hx, ih fun v s ht hn hv => ?_]
        · rfl
        · rw [← Text.getLast?_cons_or]
          exact h (x :: v) s (by rw [ht]; rfl) (Nat.succ_le_succ hn)
            (List.forall_mem_cons.2 ⟨hx, hv⟩)

/-- A lazy repetition takes characters of its class one by one until the rest of the search
succeeds. -/
theorem first_lazyStar (hu : ∀ y ∈ u, k.has y = true)
    (hfail : ∀ v w, u = v ++ w → w ≠ [] → K ⟨v.getLast?.or b, w ++ r, cs⟩ = none)
    (hK : K ⟨u.getLast?.or b, r, cs⟩ = some d) :
    first (lazyStar (one k)) ⟨b, u ++ r, cs⟩ K = some d := by
  have hsteps : ∀ n, u.length ≤ n → tryShortest (first (one k)) n ⟨b, u ++ r, cs⟩ K = some d := by
    induction u generalizing b with
    | nil =>
      intro n _
      have hnow : K ⟨b, r, cs⟩ = some d := hK
      cases n with
      | zero => exact hnow
      | succ n => simp [tryShortest, hnow]
    | cons x u ih =>
      intro n hn
      obtain ⟨n, rfl⟩ := Nat.exists_eq_succ_of_ne_zero (Nat.ne_of_gt (Nat.lt_of_lt_of_le
        (Nat.succ_pos _) hn))
      have hnow : K ⟨b, x :: (u ++ r), cs⟩ = none := hfail [] (x :: u) rfl (List.cons_ne_nil x u)
      have hnext := ih (b := some x) (fun y hy => hu y (List.mem_cons_of_mem x hy))
        (fun v w hv hw => by
          rw [← Text.getLast?_cons_or]
          exact hfail (x :: v) w (by rw [hv]; rfl) hw)
        (by rwa [← Text.getLast?_cons_or]) n (Nat.le_of_succ_le_succ hn)
      rw [List.cons_append, tryShortest, hnow, first_one_of_has (hu x List.mem_cons_self), hnext]
      rfl
  exact hsteps _ (by simp)

/-- A repetition takes texts that are steps of it one behind the other, up to a place where no step
can be taken, if the rest of the search succeeds from there. -/
theorem first_star {p : Pattern} {us : List Text} (hne : ∀ u ∈ us, u ≠ [])
    (hstep : ∀ u vs, u :: vs <:+ us → ∀ b K,
      first p ⟨b, u ++ (vs.flatten ++ r), cs⟩ K = K ⟨u.getLast?.or b, vs.flatten ++ r, cs⟩)
    (hstop : ∀ b K, first p ⟨b, r, cs⟩ K = none)
    (hK : K ⟨us.flatten.getLast?.or b, r, cs⟩ = some d) :
    first (star p) ⟨b, us.flatten ++ r, cs⟩ K = some d := by
  have hsteps : ∀ n, us.flatten.length ≤ n →
      tryLongest (first p) n ⟨b, us.flatten ++ r, cs⟩ K = some d := by
    induction us generalizing b with
    | nil =>
      intro n _
      have hnow : K ⟨b, r, cs⟩ = some d := hK
      cases n with
      | zero => exact hnow
      | succ n =>
        show (first p ⟨b, r, cs⟩ _ <|> K ⟨b, r, cs⟩) = some d
        rw [hstop, hnow]
        rfl
    | cons u us ih =>
      intro n hn
      obtain ⟨hu, hne⟩ := List.forall_mem_cons.1 hne
      have hlength := List.length_pos_iff.2 hu
      rw [List.flatten_cons, List.length_append] at hn
      obtain ⟨n, rfl⟩ := Nat.exists_eq_succ_of_ne_zero (n := n) (by omega)
      rw [List.flatten_cons, List.getLast?_append, Option.or_assoc] at hK
      have hnext := ih hne (fun v vs hv => hstep v vs (hv.trans (List.suffix_cons u us))) hK n
        (by omega)
      rw [List.flatten_cons, List.append_assoc, tryLongest, hstep u us List.suffix_rfl, hnext]
      rfl
  exact hsteps _ (by simp)

/-! ## One of several words -/

/-- Of several literals the first that is there is taken. -/
theorem first_oneOf_literal {ws : List Text} (hws : ws ≠ []) (b : Option Char) (t : Text) :
    first (oneOf (ws.map literal)) ⟨b, t, cs⟩ some =
      (ws.find? fun w => w.isPrefixOf t).map fun w => ⟨w.getLast?.or b, t.drop w.length, cs⟩ := by
  induction ws with
  | nil => exact absurd rfl hws
  | cons w ws ih =>
    have hone : first (literal w) ⟨b, t, cs⟩ some = _ := first_literal_eq w t
    cases ws with
    | nil =>
      rw [List.map_singleton, oneOf, hone, List.find?_singleton]
      split <;> rfl
    | cons v ws =>
      have hunfold : oneOf ((w :: v :: ws).map literal)
          = alt (literal w) (oneOf ((v :: ws).map literal)) :=
        rfl
      rw [hunfold, first, hone, List.find?_cons, ih (List.cons_ne_nil v ws)]
      split
      · next h => simp [h]
      · next h => simp [h]

theorem first_letters_eq_none
    (h : ∀ v s, t = v ++ s → SameLetters v w → K ⟨v.getLast?.or b, s, cs⟩ = none) :
    first (letters w) ⟨b, t, cs⟩ K = none := by
  induction w generalizing b t with
  | nil => exact h [] t rfl rfl
  | cons y w ih =>
    show first (one (.letter y)) ⟨b, t, cs⟩ (fun d => first (letters w) d K) = none
    cases t with
    | nil => rfl
    | cons x t =>
      by_cases hx : CharClass.has (.letter y) x = true
      · rw [first_one_of_has hx]
        refine ih fun v s ht hv => ?_
        have hfold : simpleFold y = simpleFold x := by simpa [CharClass.has] using hx
        rw [← Text.getLast?_cons_or]
        refine h (x :: v) s (by rw [ht]; rfl) ?_
        rw [SameLetters, List.map_cons, List.map_cons, hfold, hv]
      · exact first_one_of_not_has fun z hz => by rw [← Option.some.inj hz]; simpa using hx

/-- Of several words the one that is there is taken, if the search goes on neither from within
it nor from behind it. -/
theorem first_oneOf_letters (ws : List Text) {g : Text} (hg : ∃ w ∈ ws, SameLetters g w)
    (hfail : ∀ v s, g = v ++ s → s ≠ [] → K ⟨v.getLast?.or b, s ++ r, cs⟩ = none)
    (hr : ∀ y, r.head? = some y → ∀ w ∈ ws, simpleFold y ∉ w.map simpleFold)
    (hK : K ⟨g.getLast?.or b, r, cs⟩ = some d) :
    first (oneOf (ws.map letters)) ⟨b, g ++ r, cs⟩ K = some d := by
  have hone : ∀ w ∈ ws, ¬ SameLetters g w → first (letters w) ⟨b, g ++ r, cs⟩ K = none := by
    intro w hw hne
    refine first_letters_eq_none fun v s ht hv => ?_
    rcases List.append_eq_append_iff.1 ht with ⟨a, rfl, rfl⟩ | ⟨a, rfl, rfl⟩
    · -- the word would be longer than what is there
      cases a with
      | nil => exact absurd (by simpa using hv) hne
      | cons y a =>
        refine absurd ?_ (hr y rfl w hw)
        rw [← hv, List.map_append]
        exact List.mem_append_right _ (List.mem_map_of_mem List.mem_cons_self)
    · by_cases ha : a = []
      · subst ha
        exact absurd (by simpa using hv) hne
      · exact hfail v a rfl ha
  induction ws with
  | nil => exact absurd hg (by simp)
  | cons w ws ih =>
    by_cases hw : SameLetters g w
    · have hfirst : first (letters w) ⟨b, g ++ r, cs⟩ K = some d := (first_letters hw r).trans hK
      cases ws with
      | nil => exact hfirst
      | cons v ws => simp [oneOf, first, hfirst]
    · have hrest : ∃ v ∈ ws, SameLetters g v := by
        obtain ⟨v, hv, hsame⟩ := hg
        rcases List.mem_cons.1 hv with rfl | hv
        · exact absurd hsame hw
        · exact ⟨v, hv, hsame⟩
      have hnone := hone w List.mem_cons_self hw
      have hnext := ih hrest (fun y hy v hv => hr y hy v (List.mem_cons_of_mem w hv))
        fun v hv => hone v (List.mem_cons_of_mem w hv)
      cases ws with
      | nil => exact absurd hrest (by simp)
      | cons v ws =>
        rw [List.map_cons] at hnext
        simp [oneOf, first, hnone, hnext]

theorem of_spells_oneOf {ws : List Text} (h : (oneOf (ws.map letters)).Spells u) :
    ∃ w ∈ ws, SameLetters u w := by
  induction ws with
  | nil =>
    obtain ⟨x, -, hx⟩ := h
    exact absurd hx (by simp [CharClass.has])
  | cons w ws ih =>
    cases ws with
    | nil => exact ⟨w, List.mem_cons_self, spells_letters.1 h⟩
    | cons v ws =>
      rcases h with h | h
      · exact ⟨w, List.mem_cons_self, spells_letters.1 h⟩
      · obtain ⟨x, hx, hsame⟩ := ih h
        exact ⟨x, List.mem_cons_of_mem w hx, hsame⟩

/-! ## Calls -/

/-- The condition that a word begins holds in front of a word character and behind another
one. -/
theorem first_edge (hb : b.any isWordChar = false) (hx : isWordChar x = true) :
    first edge ⟨b, x :: t, cs⟩ K = K ⟨b, x :: t, cs⟩ := by
  rw [edge, first, if_pos]
  simp [Anchor.holds, hb, hx]

/-- The opening of a call is passed. -/
theorem first_opening {g name e : Text} (hg : SameLetters g name) (hne : g ≠ [])
    (hword : ∀ c ∈ g, isWordChar c = true) (he : ∀ c ∈ e, isBlank c = true)
    (hb : b.any isWordChar = false) (r : Text) :
    first (opening name) ⟨b, g ++ (e ++ '(' :: r), cs⟩ K = K ⟨some '(', r, cs⟩ := by
  obtain ⟨x, g, rfl⟩ := List.exists_cons_of_ne_nil hne
  have hblank : ∀ y, ('(' :: r).head? = some y → isBlank y = false := fun y hy => by
    rw [← Option.some.inj hy]
    decide
  rw [opening, first_append, first_append, first_append, List.cons_append,
    first_edge hb (hword x List.mem_cons_self), ← List.cons_append, first_letters hg]
  exact (first_blanks_append he hblank).trans (first_literal ['('] r)

/-- A sign that has to follow, blanks in front of it, does not follow in front of another one. -/
theorem first_blanks_literal_of_ne {stop : Char}
    (hblank : ∀ y, t.head? = some y → isBlank y = false) (hstop : t.head? ≠ some stop) :
    first blanks ⟨b, t, cs⟩ (fun d => first (literal [stop]) d K) = none :=
  (first_blanks_stop hblank).trans (first_literal_of_ne hstop)

/-- In front of what is left of an argument no sign stands behind blanks: it ends in a character
that is not blank, so behind the blanks comes one of its own characters. -/
theorem first_blanks_literal {w e : Text} {stop : Char} (hw : w ≠ [])
    (hk : ∀ y ∈ w, k.has y = true) (hlast : ∀ y, w.getLast? = some y → isBlank y = false)
    (hstop : k.has stop = false) :
    first blanks ⟨b, w ++ (e ++ stop :: r), cs⟩ (fun d => first (literal [stop]) d K) = none := by
  obtain ⟨v, c, hc⟩ := (List.eq_nil_or_concat w).resolve_left hw
  have hcblank : isBlank c = false :=
    hlast c (by rw [hc, List.concat_eq_append, List.getLast?_concat])
  have hrest : w.dropWhile isBlank ≠ [] := by
    rw [ne_eq, List.dropWhile_eq_nil_iff]
    intro hall
    exact absurd (hall c (by rw [hc]; simp)) (by simp [hcblank])
  obtain ⟨y, z, hy⟩ := List.exists_cons_of_ne_nil hrest
  have hynot := List.head?_dropWhile_not isBlank w
  rw [hy] at hynot
  have hyw : y ∈ w := (List.dropWhile_suffix isBlank).subset (hy ▸ List.mem_cons_self)
  rw [← List.takeWhile_append_dropWhile (p := isBlank) (l := w), hy, List.append_assoc,
    first_blanks_append (fun c hc => List.all_eq_true.1 List.all_takeWhile c hc)]
  · refine first_literal_of_ne fun h => ?_
    rw [← Option.some.inj h, hk y hyw] at hstop
    exact absurd hstop (by simp)
  · intro c hc
    rw [← Option.some.inj hc]
    simpa using hynot

/-- As few characters as possible up to the sign behind an argument are the argument. -/
theorem first_lazyStar_blanks {a e : Text} {stop : Char} (ha : ∀ y ∈ a, k.has y = true)
    (hlast : ∀ y, a.getLast? = some y → isBlank y = false) (he : ∀ y ∈ e, isBlank y = true)
    (hstop : k.has stop = false) (hblank : isBlank stop = false) {c : Cursor → Cursor}
    (hc : ∀ d, (c d).before = d.before ∧ (c d).rest = d.rest)
    (hK : K ⟨some stop, r, (c ⟨a.getLast?.or b, e ++ stop :: r, cs⟩).captures⟩ = some d) :
    first (lazyStar (one k)) ⟨b, a ++ (e ++ stop :: r), cs⟩
      (fun d => first blanks (c d) fun d => first (literal [stop]) d K) = some d := by
  have hcursor : ∀ d : Cursor, c d = ⟨d.before, d.rest, (c d).captures⟩ := fun d => by
    rw [← (hc d).1, ← (hc d).2]
  refine first_lazyStar ha (fun v w hu hw => ?_) ?_
  · rw [hcursor]
    refine first_blanks_literal hw (fun y hy => ha y ?_) (fun y hy => hlast y ?_) hstop
    · rw [hu]
      exact List.mem_append_right v hy
    · rw [hu, List.getLast?_append_of_ne_nil v hw]
      exact hy
  · rw [hcursor]
    have hend : ∀ y, (stop :: r).head? = some y → isBlank y = false := fun y hy => by
      rw [← Option.some.inj hy]
      exact hblank
    exact (first_blanks_append he hend).trans ((first_literal [stop] r).trans hK)

/-- An argument up to the sign behind it is captured without the blanks around it. -/
theorem first_argument {s a e : Text} {stop : Char} {n : Nat}
    (hs : ∀ y ∈ s, isBlank y = true) (hne : a ≠ []) (ha : ∀ y ∈ a, k.has y = true)
    (hhead : ∀ y, a.head? = some y → isBlank y = false)
    (hlast : ∀ y, a.getLast? = some y → isBlank y = false) (he : ∀ y ∈ e, isBlank y = true)
    (hstop : k.has stop = false) (hblank : isBlank stop = false)
    (hK : K ⟨some stop, r, ⟨n, a ++ (e ++ stop :: r), e ++ stop :: r⟩ :: cs⟩ = some d) :
    first (argument n k ++ literal [stop]) ⟨b, s ++ (a ++ (e ++ stop :: r)), cs⟩ K = some d := by
  obtain ⟨x, u, rfl⟩ := List.exists_cons_of_ne_nil hne
  have hstart : ∀ y, (x :: u ++ (e ++ stop :: r)).head? = some y → isBlank y = false := hhead
  have hlast' : ∀ y, u.getLast? = some y → isBlank y = false := fun y hy =>
    hlast y (by rw [List.getLast?_cons, hy]; rfl)
  have hcapture : first (group n (lazy1 k)) ⟨s.getLast?.or b, x :: u ++ (e ++ stop :: r), cs⟩
      (fun d => first blanks d fun d => first (literal [stop]) d K) = some d := by
    rw [first, lazy1, first_append, List.cons_append, first_one_of_has (ha x List.mem_cons_self)]
    exact first_lazyStar_blanks (fun y hy => ha y (List.mem_cons_of_mem x hy)) hlast' he hstop
      hblank (fun _ => ⟨rfl, rfl⟩) hK
  rw [first_append, argument, first]
  simp only [first_append]
  rw [first_blanks_append hs hstart, hcapture]
  rfl

/-! ## Matches -/

theorem text_capture (n : Nat) (u s : Text) : Capture.text ⟨n, u ++ s, s⟩ = u :=
  text_of_append rfl

/-- The match of a search that has passed `u`. -/
theorem matchAt?_of_first {p : Pattern} {b' : Option Char}
    (h : p.first ⟨b, u ++ r, []⟩ some = some ⟨b', r, cs⟩) (hu : u ≠ []) :
    p.matchAt? b (u ++ r) = some ⟨b, u, cs.map fun g => (g.number, g.text), r⟩ := by
  have htake : (u ++ r).take ((u ++ r).length - r.length) = u := text_of_append rfl
  rw [matchAt?, h]
  simp only [htake, List.isEmpty_iff, if_neg hu, List.drop_left]

theorem matchAt?_eq_none_of_first {p : Pattern} (h : p.first ⟨b, t, []⟩ some = none) :
    p.matchAt? b t = none := by
  rw [matchAt?, h]

/-- Where a match ends. -/
theorem exists_first_of_matchAt? {p : Pattern} {m : Match} (h : p.matchAt? b t = some m) :
    ∃ d, first p ⟨b, t, []⟩ some = some d ∧ d.rest = m.after := by
  unfold matchAt? at h
  split at h
  · exact absurd h (by simp)
  · next d hd =>
    refine ⟨d, hd, ?_⟩
    simp only at h
    split at h
    · exact absurd h (by simp)
    · rw [first_eq] at hd
      obtain ⟨x, hx, hxd⟩ := List.exists_of_findSome?_eq_some hd
      obtain rfl := Option.some.inj hxd
      obtain ⟨⟨u, hu, -⟩, -⟩ := leads_of_mem_ways hx
      have htake : t.take (t.length - x.rest.length) = u := text_of_append hu
      rw [← Option.some.inj h, htake]
      simp only at hu ⊢
      rw [hu, List.drop_left]

/-- A group at the end of a search is the match of its pattern. -/
theorem first_group_some (n : Nat) (p : Pattern) (c : Cursor) :
    first (group n p) c some = (first p c some).map (c.capture n) := by
  rw [first_eq, first_eq, ways, List.findSome?_map]
  cases ways p c <;> rfl

/-- What the opening of a call is spelled like. -/
theorem of_spells_opening {name : Text} (h : (opening name).Spells u) :
    ∃ g e, u = g ++ (e ++ ['(']) ∧ SameLetters g name ∧ ∀ c ∈ e, isBlank c = true := by
  obtain ⟨v, o, rfl, ⟨v', e, rfl, ⟨s, g, rfl, hs, hg⟩, he⟩, ho⟩ := h
  obtain rfl : s = [] := hs
  exact ⟨g, e, by rw [spells_literal.1 ho]; simp, spells_letters.1 hg, he⟩

/-- An argument is spelled with blanks and characters of its class. -/
theorem of_spells_argument {n : Nat} {k : CharClass} (h : (argument n k).Spells u) :
    ∀ c ∈ u, isBlank c = true ∨ k.has c = true := by
  rcases h with ⟨v, e, rfl, ⟨e', a, rfl, he', ⟨x, s, rfl, ⟨y, rfl, hy⟩, vs, rfl, hvs⟩⟩, he⟩ |
    ⟨v, a, rfl, ⟨vs, rfl, hvs⟩, y, rfl, hy⟩
  · intro c hc
    simp only [List.mem_append, List.mem_singleton, List.mem_flatten] at hc
    rcases hc with (hc | rfl | ⟨v, hv, hc⟩) | hc
    · exact Or.inl (he' c hc)
    · exact Or.inr hy
    · obtain ⟨z, rfl, hz⟩ := hvs v hv
      exact Or.inr (List.mem_singleton.1 hc ▸ hz)
    · exact Or.inl (he c hc)
  · intro c hc
    simp only [List.mem_append, List.mem_singleton, List.mem_flatten] at hc
    rcases hc with ⟨v, hv, hc⟩ | rfl
    · obtain ⟨z, rfl, hz⟩ := hvs v hv
      exact Or.inl (List.mem_singleton.1 hc ▸ hz)
    · exact Or.inl hy

end Pattern

end SqlScribe
