import Mathlib.Algebra.GroupWithZero.Nat
import SqlScribe.Proofs.Clause.Opening
import SqlScribe.Proofs.Expression.Calls

/-!
# Arguments of calls

What rules for whole calls read of the arguments. An argument that is one text is captured as it
stands, and that a text is made of several is told by its commas. Main statements:

* `Plain.quote`, `Plain.minus`, `plain_of_word`: texts that stand for themselves;
* `count_join`: how many commas a list of arguments has;
* `matchAt?_call1`, `matchAt?_call2`, `tight_call1`, `tight_call2`: calls with one and with two
  arguments.
-/

namespace SqlScribe

/-! ## Plain texts -/

namespace Text

theorem uncut_append {q : Bool} {t u : Text} (ht : uncut q t = true) (hu : uncut false u = true) :
    uncut q (t ++ u) = true := by
  induction t generalizing q with
  | nil =>
    obtain rfl : q = false := by simpa [uncut] using ht
    exact hu
  | cons c t ih =>
    rw [uncut, Bool.and_eq_true] at ht
    rw [List.cons_append, uncut, Bool.and_eq_true]
    exact ⟨ht.1, ih ht.2⟩

theorem uncut_quoted {w : Text} (hw : '\'' ∉ w) : uncut true (w ++ ['\'']) = true := by
  induction w with
  | nil => rfl
  | cons c w ih =>
    rw [List.mem_cons, not_or] at hw
    have hc : (c == '\'') = false := by simpa using Ne.symm hw.1
    rw [List.cons_append, uncut, hc, Bool.or_true, Bool.true_and]
    exact ih hw.2

theorem uncut_of_no_comma {t : Text} (hcomma : ',' ∉ t) (hquote : '\'' ∉ t) :
    uncut false t = true := by
  induction t with
  | nil => rfl
  | cons c t ih =>
    rw [List.mem_cons, not_or] at hcomma hquote
    have hc : (c != ',') = true := by simpa using Ne.symm hcomma.1
    have hq : (c == '\'') = false := by simpa using Ne.symm hquote.1
    rw [uncut, hc, hq]
    exact ih hcomma.2 hquote.2

end Text

namespace Expr

theorem Plain.trim_eq {t : Text} (h : Plain t) : Text.trim t = t := Text.trim_eq_self h.head h.last

/-- Two plain texts one behind the other stand for themselves. -/
theorem Plain.append {t u : Text} (ht : Plain t) (hu : Plain u) : Plain (t ++ u) := by
  refine ⟨List.append_ne_nil_of_left_ne_nil ht.ne_nil u, fun c hc => ?_, fun c hc => ?_,
    fun c hc => ?_, ?_, Text.uncut_append ht.uncut hu.uncut⟩
  · exact (List.mem_append.1 hc).elim (ht.marks c) (hu.marks c)
  · rw [List.head?_append_of_ne_nil _ ht.ne_nil] at hc
    exact ht.head c hc
  · rw [List.getLast?_append_of_ne_nil _ hu.ne_nil] at hc
    exact hu.last c hc
  · rw [Text.Closed, Text.closingAt_append, ht.closed, hu.closed]

/-- A quoted text stands for itself. -/
theorem Plain.quote {w : Text} (hquote : '\'' ∉ w)
    (hmarks : ∀ c ∈ w, c ∉ ['(', ')', '[', ']', '\x60']) : Plain (Text.quote w) := by
  refine ⟨List.cons_ne_nil _ _, fun c hc => ?_, fun c hc => ?_, fun c hc => ?_, ?_, ?_⟩
  · rcases List.mem_cons.1 hc with rfl | hc
    · decide
    · rcases List.mem_append.1 hc with hc | hc
      · exact hmarks c hc
      · exact List.mem_singleton.1 hc ▸ by decide
  · exact Option.some.inj hc ▸ by decide
  · rw [Text.quote, ← List.cons_append, List.getLast?_concat] at hc
    exact Option.some.inj hc ▸ by decide
  · rw [Text.Closed, Text.quote, ← List.singleton_append, Text.closingAt_append,
      Text.closingAt_append]
    show Text.closingAt (Text.closingAt (some '\'') w) ['\''] = none
    rw [Text.closingAt_quote hquote]
    rfl
  · show Text.uncut true (w ++ ['\'']) = true
    exact Text.uncut_quoted hquote

/-- A text of the characters of identifiers stands for itself. -/
theorem plain_of_word {t : Text} (hne : t ≠ []) (ht : ∀ c ∈ t, isIdentifierChar c = true) :
    Plain t := by
  have hnot : ∀ d, isIdentifierChar d = false → d ∉ t := fun d hd hmem =>
    absurd (ht d hmem) (by simp [hd])
  refine ⟨hne, fun c hc hmark => ?_, fun c hc => ?_, fun c hc => ?_, ?_, ?_⟩
  · have hsigns : ['(', ')', '[', ']', '\x60'].all (fun c => !isIdentifierChar c) = true := by
      decide
    exact absurd (ht c hc) (by simpa using List.all_eq_true.1 hsigns c hmark)
  · exact isBlank_of_isIdentifierChar (ht c (List.mem_of_mem_head? hc))
  · exact isBlank_of_isIdentifierChar (ht c (List.mem_of_getLast? hc))
  · refine Text.closingAt_of_not_mem Text.isClosing_none fun c hc hmark => ?_
    have hsigns : Text.quoteMarks.all (fun c => !isIdentifierChar c) = true := by decide
    exact absurd (ht c hc) (by simpa using List.all_eq_true.1 hsigns c hmark)
  · exact Text.uncut_of_no_comma (hnot ',' (by decide)) (hnot '\'' (by decide))

/-- A plain text stands for itself behind a minus sign. -/
theorem Plain.minus {t : Text} (h : Plain t) : Plain ('-' :: t) := by
  refine ⟨List.cons_ne_nil _ _, fun c hc => ?_, fun c hc => ?_, fun c hc => ?_, h.closed, h.uncut⟩
  · rcases List.mem_cons.1 hc with rfl | hc
    · decide
    · exact h.marks c hc
  · exact Option.some.inj hc ▸ by decide
  · obtain ⟨d, t, rfl⟩ := List.exists_cons_of_ne_nil h.ne_nil
    exact h.last c hc

end Expr

/-! ## Commas -/

theorem Pattern.noParenComma_iff {c : Char} :
    noParenComma.has c = true ↔ noParen.has c = true ∧ c ≠ ',' := by
  simp [noParen, noParenComma, CharClass.has, and_assoc]

/-- The commas of a list of arguments are those of the arguments and those between them. -/
theorem Text.count_join (t : Text) (ts : List Text) :
    (join [',', ' '] (t :: ts)).count ',' =
      ts.length + ((t :: ts).map (List.count ',')).sum := by
  induction ts generalizing t with
  | nil => simp [join]
  | cons u us ih =>
    rw [join_cons _ _ (by simp), List.count_append, List.count_append, ih u]
    simp
    omega

namespace Expr

variable {ts : List Text}

/-- Texts are without commas if there are no more commas than between them. -/
theorem noParenComma_of_count (hts : ∀ t ∈ ts, Plain t)
    (hcount : (Text.join [',', ' '] ts).count ',' + 1 = ts.length) :
    ∀ t ∈ ts, ∀ c ∈ t, Pattern.noParenComma.has c = true := by
  cases ts with
  | nil => simp
  | cons t ts =>
    rw [Text.count_join, List.length_cons] at hcount
    have hsum : ((t :: ts).map (List.count ',')).sum = 0 := by omega
    intro u hu c hc
    have hzero := List.sum_eq_zero_iff.1 hsum _ (List.mem_map_of_mem hu)
    have hcomma : c ≠ ',' := by
      rintro rfl
      exact List.count_eq_zero.1 hzero hc
    have hparen := (hts u hu).noParen hc
    exact Pattern.noParenComma_iff.2 ⟨hparen, hcomma⟩

end Expr

/-! ## Calls with one and with two arguments -/

/-- So many arguments. -/
def SqlFunction.arity (n : Nat) (args : List (Option Text)) : Bool := args.length == n

theorem SqlFunction.eq_singleton_of_arity {ts : List Text} (h : arity 1 (ts.map some) = true) :
    ∃ a, ts = [a] :=
  List.length_eq_one_iff.1 (by simpa [arity] using h)

theorem SqlFunction.eq_pair_of_arity {ts : List Text} (h : arity 2 (ts.map some) = true) :
    ∃ a c, ts = [a, c] :=
  List.length_eq_two.1 (by simpa [arity] using h)

namespace Pattern

open SqlScribe.Expr

variable {n g a c r : Text} {k : CharClass} {b : Option Char}

theorem noParen_of_class {p : Char → Bool} (hopen : p '(' = false) (hclose : p ')' = false)
    {c : Char} (h : p c = true) : noParen.has c = true := by
  have hne : ∀ d, p d = false → c ≠ d := fun d hd hcd =>
    Bool.false_ne_true (hd.symm.trans (hcd ▸ h))
  simp [noParen, CharClass.has, hne _ hopen, hne _ hclose]

theorem noParen_of_isBlank {c : Char} (h : isBlank c = true) : noParen.has c = true :=
  noParen_of_class (by decide) (by decide) h

theorem noParen_of_isWordChar {c : Char} (h : isWordChar c = true) : noParen.has c = true :=
  noParen_of_class (by decide) (by decide) h

theorem noParen_of_noParenComma {c : Char} (h : noParenComma.has c = true) : noParen.has c = true :=
  (noParenComma_iff.1 h).1

/-- An argument of characters but parentheses and commas has no comma. -/
theorem count_argument {m : Nat} {u : Text} (h : (argument m noParenComma).Spells u) :
    u.count ',' = 0 ∧ ∀ c ∈ u, noParen.has c = true := by
  have hall := of_spells_argument h
  refine ⟨List.count_eq_zero.2 fun hc => ?_, fun c hc => ?_⟩
  · exact (hall ',' hc).elim (fun h => absurd h (by decide)) fun h => absurd h (by decide)
  · exact (hall c hc).elim noParen_of_isBlank noParen_of_noParenComma

/-- The match of a pattern that opens with a name and whose search goes on over `x`. -/
theorem matchAt?_of_opening {p : Pattern} {s x : Text} {e : Option Char} {d : List Capture}
    {gs : List (Nat × Text)} {K : Continuation} (hp : ∀ c, p.first c some = (opening n).first c K)
    (hsame : SameLetters g n) (hne : n ≠ []) (hn : ∀ c ∈ n, isLabelChar c = true)
    (hs : ∀ c ∈ s, isBlank c = true) (hb : b.any isWordChar = false)
    (hK : K ⟨some '(', x ++ r, []⟩ = some ⟨e, r, d⟩)
    (hgs : (d.map fun c => (c.number, c.text)) = gs) :
    p.matchAt? b (g ++ (s ++ '(' :: (x ++ r))) = some ⟨b, g ++ (s ++ '(' :: x), gs, r⟩ := by
  have happ : (g ++ (s ++ '(' :: x)) ++ r = g ++ (s ++ '(' :: (x ++ r)) := by simp
  have hfirst : p.first ⟨b, (g ++ (s ++ '(' :: x)) ++ r, []⟩ some = some ⟨e, r, d⟩ := by
    rw [hp, happ, first_opening hsame (hsame.ne_nil hne) (hsame.isWordChar hn) hs hb, hK]
  have hmatch := matchAt?_of_first hfirst (by simp)
  rwa [happ, hgs] at hmatch

theorem matchAt?_call1 (hsame : SameLetters g n) (hne : n ≠ [])
    (hn : ∀ c ∈ n, isLabelChar c = true) (ha : Plain a) (hk : ∀ c ∈ a, k.has c = true)
    (hstop : k.has ')' = false) (hb : b.any isWordChar = false) (r : Text) :
    (call1 n k).matchAt? b (g ++ '(' :: (a ++ [')'] ++ r)) =
      some ⟨b, g ++ '(' :: (a ++ [')']), [(1, a)], r⟩ := by
  refine matchAt?_of_opening (s := []) (e := some ')') (d := [⟨1, a ++ ')' :: r, ')' :: r⟩])
    (fun _ => rfl) hsame hne hn (by simp) hb ?_ ?_
  · rw [List.append_assoc]
    exact first_argument (s := []) (e := []) (by simp) ha.ne_nil hk ha.head ha.last (by simp) hstop
      (by decide) rfl
  · rw [List.map_singleton, text_capture]

/-- A call with two arguments in any layout. -/
theorem matchAt?_call2 {s : Text} (hsame : SameLetters g n) (hne : n ≠ [])
    (hn : ∀ c ∈ n, isLabelChar c = true) (hs : ∀ c ∈ s, isBlank c = true) (ha : Text.trim a ≠ [])
    (hka : ∀ x ∈ Text.trim a, k.has x = true) (hc : Text.trim c ≠ [])
    (hkc : ∀ x ∈ Text.trim c, k.has x = true) (hstop : k.has ')' = false)
    (hcomma : k.has ',' = false) (hb : b.any isWordChar = false) (r : Text) :
    (call2 n k).matchAt? b (g ++ (s ++ '(' :: (a ++ ',' :: c ++ [')'] ++ r))) =
      some ⟨b, g ++ (s ++ '(' :: (a ++ ',' :: c ++ [')'])),
        [(2, Text.trim c), (1, Text.trim a)], r⟩ := by
  obtain ⟨u, v, hsplit, hu, hv⟩ := Text.exists_trim a
  obtain ⟨x, y, hsplit', hx, hy⟩ := Text.exists_trim c
  have happ : a ++ ',' :: c ++ [')'] ++ r
      = u ++ (Text.trim a ++ (v ++ ',' :: (x ++ (Text.trim c ++ (y ++ ')' :: r))))) := by
    conv_lhs => rw [hsplit, hsplit']
    simp
  refine matchAt?_of_opening (e := some ')')
    (d := [⟨2, Text.trim c ++ (y ++ ')' :: r), y ++ ')' :: r⟩,
    ⟨1, Text.trim a ++ (v ++ ',' :: (x ++ (Text.trim c ++ (y ++ ')' :: r)))),
      v ++ ',' :: (x ++ (Text.trim c ++ (y ++ ')' :: r)))⟩]) (fun _ => rfl) hsame hne hn hs hb ?_ ?_
  · rw [happ]
    refine first_argument hu ha hka (fun _ => Text.head?_trim) (fun _ => Text.getLast?_trim) hv
      hcomma (by decide) ?_
    exact first_argument hx hc hkc (fun _ => Text.head?_trim) (fun _ => Text.getLast?_trim) hy hstop
      (by decide) rfl
  · rw [List.map_cons, List.map_singleton, text_capture, text_capture]

theorem spells_append_assoc {p q o : Pattern} {u : Text} :
    (p ++ q ++ o).Spells u ↔ (p ++ (q ++ o)).Spells u := by
  constructor
  · rintro ⟨v, w, rfl, ⟨v, x, rfl, hv, hx⟩, hw⟩
    exact ⟨v, x ++ w, List.append_assoc _ _ _, hv, x, w, rfl, hx, hw⟩
  · rintro ⟨v, w, rfl, hv, x, w, rfl, hx, hw⟩
    exact ⟨v ++ x, w, (List.append_assoc _ _ _).symm, ⟨v, x, rfl, hv, hx⟩, hw⟩

/-- A pattern that opens with a name and goes on to a parenthesis is one of whole calls. -/
theorem tight_of_opening {q : Pattern} {fits : Text → Prop} (hne : n ≠ [])
    (hn : ∀ c ∈ n, isLabelChar c = true)
    (hq : ∀ {u : Text}, q.Spells u → (∀ c ∈ u, noParen.has c = true) ∧ fits u) :
    Tight (opening n ++ q ++ literal [')']) [n] fits := by
  refine ⟨((OpensWith.opening hne hn).append q).append _, fun {u} hu => ?_⟩
  obtain ⟨v, w, rfl, ⟨o, x, rfl, ho, hx⟩, hw⟩ := hu
  obtain ⟨g, e, rfl, hg, he⟩ := of_spells_opening ho
  refine ⟨g ++ e, x, ?_, fun hc => ?_, (hq hx).1, (hq hx).2⟩
  · rw [spells_literal.1 hw]
    simp
  · rcases List.mem_append.1 hc with hc | hc
    · exact absurd (hg.isWordChar hn _ hc) (by decide)
    · exact absurd (he _ hc) (by decide)

theorem tight_call1 (hne : n ≠ []) (hn : ∀ c ∈ n, isLabelChar c = true) :
    Tight (call1 n noParenComma) [n] fun u => u.count ',' = 0 :=
  tight_of_opening hne hn fun hu => ⟨(count_argument hu).2, (count_argument hu).1⟩

theorem tight_call2 (hne : n ≠ []) (hn : ∀ c ∈ n, isLabelChar c = true) :
    Tight (call2 n noParenComma) [n] fun u => u.count ',' = 1 := by
  have htight : Tight (opening n ++ (argument 1 noParenComma ++ (literal [',']
      ++ argument 2 noParenComma)) ++ literal [')']) [n] fun u => u.count ',' = 1 := by
    refine tight_of_opening hne hn fun {u} hu => ?_
    obtain ⟨a, w, rfl, ha, s, d, rfl, hs, hd⟩ := hu
    obtain rfl := spells_literal.1 hs
    obtain ⟨hacount, haparen⟩ := count_argument ha
    obtain ⟨hdcount, hdparen⟩ := count_argument hd
    refine ⟨fun c hc => ?_, by simp [hacount, hdcount]⟩
    rcases List.mem_append.1 hc with hc | hc
    · exact haparen c hc
    · rcases List.mem_append.1 hc with hc | hc
      · exact List.mem_singleton.1 hc ▸ by decide
      · exact hdparen c hc
  refine htight.of_spells rfl fun {u} hu => ?_
  obtain ⟨v, w, rfl, hv, hw⟩ := hu
  exact ⟨v, w, rfl, spells_append_assoc.1 (spells_append_assoc.1 hv), hw⟩

end Pattern

end SqlScribe
