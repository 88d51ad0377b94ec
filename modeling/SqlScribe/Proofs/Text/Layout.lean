import Mathlib.Data.List.Chain
import SqlScribe.Text.Blank

/-!
# The layout of texts

What cutting at blanks and joining with spaces do to a text. Main statements:

* `words_join`: words with single spaces between them are found again;
* `words_collapse`, `collapse_collapse`: collapsing keeps the words, and a second
  time it changes nothing;
* `singleSpaced_iff`: the fixed points of `collapse` are the texts whose only blanks
  are single spaces between words.
-/

namespace SqlScribe

namespace Text

/-! ## Cutting -/

theorem cut_cons_of_pos {p : Char → Bool} {c : Char} (hc : p c = true) (t : Text) :
    cut p (c :: t) = [] :: cut p t := by
  rw [cut, if_pos hc]

theorem cut_cons_of_neg {p : Char → Bool} {c : Char} (hc : p c = false) (t : Text) :
    ∃ s ss, cut p t = s :: ss ∧ cut p (c :: t) = (c :: s) :: ss := by
  obtain ⟨s, ss, hs⟩ := List.exists_cons_of_ne_nil (cut_ne_nil p t)
  exact ⟨s, ss, hs, by rw [cut, if_neg (by simp [hc]), hs]⟩

/-- A character to cut at separates the pieces in front of it from those behind. -/
theorem cut_append_cons {p : Char → Bool} {c : Char} (hc : p c = true) (a b : Text) :
    cut p (a ++ c :: b) = cut p a ++ cut p b := by
  induction a with
  | nil => rw [List.nil_append, cut_cons_of_pos hc, cut, List.singleton_append]
  | cons d a ih =>
    rw [List.cons_append]
    cases hd : p d with
    | true => rw [cut_cons_of_pos hd, cut_cons_of_pos hd, ih, List.cons_append]
    | false =>
      obtain ⟨s, ss, hs, hcut⟩ := cut_cons_of_neg hd a
      obtain ⟨s', ss', hs', hcut'⟩ := cut_cons_of_neg hd (a ++ c :: b)
      rw [ih, hs, List.cons_append] at hs'
      obtain ⟨rfl, rfl⟩ := List.cons.inj hs'
      rw [hcut', hcut, List.cons_append]

theorem cut_eq_singleton {p : Char → Bool} {t : Text} (h : ∀ c ∈ t, p c = false) :
    cut p t = [t] := by
  induction t with
  | nil => rfl
  | cons c t ih =>
    have ht := ih fun d hd => h d (List.mem_cons_of_mem _ hd)
    rw [cut, if_neg (by simp [h c List.mem_cons_self]), ht]

/-- Pieces can be cut further. -/
theorem cut_eq_flatMap_cut {p q : Char → Bool} (h : ∀ c, q c = true → p c = true) (t : Text) :
    cut p t = (cut q t).flatMap (cut p) := by
  induction t with
  | nil => rfl
  | cons c t ih =>
    cases hq : q c with
    | true =>
      rw [cut_cons_of_pos hq, cut_cons_of_pos (h c hq), ih]
      rfl
    | false =>
      obtain ⟨s, ss, hs, hcut⟩ := cut_cons_of_neg hq t
      rw [hs, List.flatMap_cons] at ih
      rw [hcut, List.flatMap_cons]
      cases hp : p c with
      | true => rw [cut_cons_of_pos hp, cut_cons_of_pos hp, ih, List.cons_append]
      | false =>
        obtain ⟨x, xs, hx, hcut'⟩ := cut_cons_of_neg hp t
        obtain ⟨y, ys, hy, hcut''⟩ := cut_cons_of_neg hp s
        rw [ih, hy, List.cons_append] at hx
        obtain ⟨rfl, rfl⟩ := List.cons.inj hx
        rw [hcut', hcut'', List.cons_append]

/-- A piece holds characters of the text that it was not cut at. -/
theorem mem_of_mem_cut {p : Char → Bool} {t s : Text} (hs : s ∈ cut p t) {c : Char}
    (hc : c ∈ s) : c ∈ t ∧ p c = false := by
  induction t generalizing s with
  | nil =>
    rw [cut, List.mem_singleton] at hs
    exact absurd hc (by simp [hs])
  | cons d t ih =>
    cases hd : p d with
    | true =>
      rw [cut_cons_of_pos hd] at hs
      rcases List.mem_cons.1 hs with rfl | hs
      · exact absurd hc List.not_mem_nil
      · exact ⟨List.mem_cons_of_mem _ (ih hs hc).1, (ih hs hc).2⟩
    | false =>
      obtain ⟨w, ws, hw, hcut⟩ := cut_cons_of_neg hd t
      rw [hcut] at hs
      rw [hw] at ih
      rcases List.mem_cons.1 hs with rfl | hs
      · rcases List.mem_cons.1 hc with rfl | hc
        · exact ⟨List.mem_cons_self, hd⟩
        · have := ih List.mem_cons_self hc
          exact ⟨List.mem_cons_of_mem _ this.1, this.2⟩
      · have := ih (List.mem_cons_of_mem _ hs) hc
        exact ⟨List.mem_cons_of_mem _ this.1, this.2⟩

/-- The pieces put together are the text without the characters it was cut at. -/
theorem flatten_cut (p : Char → Bool) (t : Text) :
    (cut p t).flatten = t.filter fun c => !p c := by
  induction t with
  | nil => rfl
  | cons c t ih =>
    cases hc : p c with
    | true => simp [cut_cons_of_pos hc, ih, hc]
    | false =>
      obtain ⟨s, ss, hs, hcut⟩ := cut_cons_of_neg hc t
      rw [hs] at ih
      rw [hcut, List.filter_cons_of_pos (by simp [hc]), ← ih]
      rfl

/-! ## Joining -/

theorem join_cons (sep s : Text) {ss : List Text} (h : ss ≠ []) :
    join sep (s :: ss) = s ++ sep ++ join sep ss := by
  obtain ⟨x, xs, rfl⟩ := List.exists_cons_of_ne_nil h
  rfl

theorem join_append (sep : Text) {ss us : List Text} (hs : ss ≠ []) (hu : us ≠ []) :
    join sep (ss ++ us) = join sep ss ++ sep ++ join sep us := by
  induction ss with
  | nil => exact absurd rfl hs
  | cons s ss ih =>
    by_cases hss : ss = []
    · subst hss
      rw [List.singleton_append, join_cons sep s hu]
      rfl
    · rw [List.cons_append, join_cons sep s (by simp [hss]), join_cons sep s hss, ih hss]
      simp only [List.append_assoc]

/-- What two texts with the separator between them keep, all of them keep. -/
theorem join_induction {P : Text → Prop} {sep : Text}
    (hsep : ∀ s u, P s → P u → P (s ++ sep ++ u)) {ss : List Text} (hne : ss ≠ [])
    (h : ∀ s ∈ ss, P s) : P (join sep ss) := by
  induction ss with
  | nil => exact absurd rfl hne
  | cons s ss ih =>
    obtain ⟨hs, hss⟩ := List.forall_mem_cons.1 h
    by_cases hnil : ss = []
    · subst hnil
      exact hs
    · rw [join_cons sep s hnil]
      exact hsep s _ hs (ih hnil hss)

theorem mem_join {sep : Text} {ss : List Text} {c : Char} (h : c ∈ join sep ss) :
    c ∈ sep ∨ ∃ s ∈ ss, c ∈ s := by
  induction ss with
  | nil => exact absurd h List.not_mem_nil
  | cons s ss ih =>
    by_cases hss : ss = []
    · subst hss
      exact Or.inr ⟨s, List.mem_cons_self, h⟩
    · rw [join_cons sep s hss, List.mem_append, List.mem_append] at h
      rcases h with (h | h) | h
      · exact Or.inr ⟨s, List.mem_cons_self, h⟩
      · exact Or.inl h
      · rcases ih h with h | ⟨u, hu, hc⟩
        · exact Or.inl h
        · exact Or.inr ⟨u, List.mem_cons_of_mem _ hu, hc⟩

theorem infix_join {sep t : Text} {ts : List Text} (h : t ∈ ts) : t <:+: join sep ts := by
  induction ts with
  | nil => exact absurd h List.not_mem_nil
  | cons u us ih =>
    by_cases hus : us = []
    · subst hus
      exact (List.mem_singleton.1 h).symm ▸ List.infix_rfl
    · rw [join_cons sep u hus]
      rcases List.mem_cons.1 h with rfl | h
      · exact ⟨[], sep ++ join sep us, by simp⟩
      · exact (ih h).trans ⟨u ++ sep, [], by simp⟩

/-! ## Runs -/

/-- A run of a class ends where a character that is not of the class stands. -/
theorem takeWhile_append_of_head {f : Char → Bool} {t r : Text} (ht : ∀ c ∈ t, f c = true)
    (hr : ∀ c, r.head? = some c → f c = false) : (t ++ r).takeWhile f = t := by
  have hnil : r.takeWhile f = [] := by
    cases r with
    | nil => rfl
    | cons c r => exact List.takeWhile_cons_of_neg (by simp [hr c rfl])
  rw [List.takeWhile_append_of_pos ht, hnil, List.append_nil]

theorem dropWhile_append_of_head {f : Char → Bool} {t r : Text} (ht : ∀ c ∈ t, f c = true)
    (hr : ∀ c, r.head? = some c → f c = false) : (t ++ r).dropWhile f = r := by
  have hself : r.dropWhile f = r := by
    cases r with
    | nil => rfl
    | cons c r => exact List.dropWhile_cons_of_neg (by simp [hr c rfl])
  rw [List.dropWhile_append_of_pos ht, hself]

/-! ## Endings -/

/-- The last character read so far, when one more is read first. -/
theorem getLast?_cons_or (c : Char) (t : Text) (before : Option Char) :
    (c :: t).getLast?.or before = t.getLast?.or (some c) := by
  rw [List.getLast?_cons]
  cases t.getLast? <;> rfl

theorem dropEnd_concat_of_pos {p : Char → Bool} {c : Char} (hc : p c = true) (t : Text) :
    dropEnd p (t ++ [c]) = dropEnd p t := by
  simp [dropEnd, hc]

theorem dropEnd_concat_of_neg {p : Char → Bool} {c : Char} (hc : p c = false) (t : Text) :
    dropEnd p (t ++ [c]) = t ++ [c] := by
  simp [dropEnd, hc]

/-- What is dropped is an ending of characters in `p`. -/
theorem dropEnd_append_ending (p : Char → Bool) (t : Text) :
    ∃ e, t = dropEnd p t ++ e ∧ ∀ c ∈ e, p c = true := by
  refine ⟨(t.reverse.takeWhile p).reverse, ?_, fun c hc => ?_⟩
  · rw [dropEnd, ← List.reverse_append, List.takeWhile_append_dropWhile, List.reverse_reverse]
  · exact List.all_eq_true.1 List.all_takeWhile c (List.mem_reverse.1 hc)

theorem mem_of_mem_dropEnd {p : Char → Bool} {t : Text} {c : Char} (h : c ∈ dropEnd p t) :
    c ∈ t := by
  obtain ⟨e, he, -⟩ := dropEnd_append_ending p t
  exact he ▸ List.mem_append_left e h

/-- The text that is left does not end in a character in `p`. -/
theorem getLast?_dropEnd {p : Char → Bool} {t : Text} {c : Char}
    (h : (dropEnd p t).getLast? = some c) : p c = false := by
  have hn := List.head?_dropWhile_not p t.reverse
  rw [dropEnd, List.getLast?_reverse] at h
  rw [h] at hn
  simpa using hn

theorem dropEnd_eq_self {p : Char → Bool} {t : Text}
    (h : ∀ c, t.getLast? = some c → p c = false) : dropEnd p t = t := by
  rcases List.eq_nil_or_concat t with rfl | ⟨u, c, rfl⟩
  · rfl
  · rw [List.concat_eq_append]
    exact dropEnd_concat_of_neg (h c (by simp)) u

/-- More characters in `p` at the end are dropped with the others. -/
theorem dropEnd_append_of_all {p : Char → Bool} {e : Text} (he : ∀ c ∈ e, p c = true) (t : Text) :
    dropEnd p (t ++ e) = dropEnd p t := by
  induction e using List.reverseRecOn with
  | nil => rw [List.append_nil]
  | append_singleton e c ih =>
    rw [← List.append_assoc, dropEnd_concat_of_pos (he c (by simp))]
    exact ih fun d hd => he d (List.mem_append_left _ hd)

theorem dropEnd_append {p : Char → Bool} {u e : Text} (hu : ∀ c, u.getLast? = some c → p c = false)
    (he : ∀ c ∈ e, p c = true) : dropEnd p (u ++ e) = u := by
  rw [dropEnd_append_of_all he, dropEnd_eq_self hu]

/-- A beginning that does not end in a character in `p` stays. -/
theorem prefix_dropEnd {p : Char → Bool} {a t : Text} (h : a <+: t)
    (ha : ∀ c, a.getLast? = some c → p c = false) : a <+: dropEnd p t := by
  obtain ⟨b, rfl⟩ := h
  induction b using List.reverseRecOn with
  | nil => exact ⟨[], by rw [List.append_nil, dropEnd_eq_self ha]⟩
  | append_singleton b c ih =>
    rw [← List.append_assoc]
    by_cases hc : p c = true
    · rwa [dropEnd_concat_of_pos hc]
    · rw [dropEnd_concat_of_neg (by simpa using hc), List.append_assoc]
      exact List.prefix_append _ _

theorem mem_of_mem_trim {t : Text} {c : Char} (h : c ∈ trim t) : c ∈ t :=
  List.dropWhile_subset _ (mem_of_mem_dropEnd h)

/-- A text with no blank at its ends is left alone by trimming. -/
theorem trim_eq_self {t : Text} (hh : ∀ c, t.head? = some c → isBlank c = false)
    (hl : ∀ c, t.getLast? = some c → isBlank c = false) : trim t = t := by
  have hstart : trimStart t = t := by
    cases t with
    | nil => rfl
    | cons c t => rw [trimStart, List.dropWhile_cons_of_neg (by simp [hh c rfl])]
  rw [trim, hstart, trimEnd, dropEnd_eq_self hl]

/-- A text is what trimming leaves of it between blanks. -/
theorem exists_trim (t : Text) : ∃ u e, t = u ++ (trim t ++ e) ∧ (∀ c ∈ u, isBlank c = true) ∧
    ∀ c ∈ e, isBlank c = true := by
  obtain ⟨e, he, hblank⟩ := dropEnd_append_ending isBlank (trimStart t)
  refine ⟨t.takeWhile isBlank, e, ?_, List.all_eq_true.1 List.all_takeWhile, hblank⟩
  conv_lhs => rw [← List.takeWhile_append_dropWhile (p := isBlank) (l := t)]
  exact congrArg _ he

theorem getLast?_trim {t : Text} {c : Char} (h : (trim t).getLast? = some c) : isBlank c = false :=
  getLast?_dropEnd h

theorem head?_trim {t : Text} {c : Char} (h : (trim t).head? = some c) : isBlank c = false := by
  obtain ⟨e, he, -⟩ : ∃ e, trimStart t = trim t ++ e ∧ _ :=
    dropEnd_append_ending isBlank (trimStart t)
  have hhead : (trimStart t).head? = some c := by
    rw [he, List.head?_append_of_ne_nil _ fun hnil => by simp [hnil] at h]
    exact h
  have hnot := List.head?_dropWhile_not isBlank t
  rw [trimStart] at hhead
  rw [hhead] at hnot
  simpa using hnot

theorem infix_dropWhile {p : Char → Bool} {k t : Text} (hne : k ≠ []) (hk : ∀ c ∈ k, p c = false)
    (h : k <:+: t) : k <:+: t.dropWhile p := by
  induction t with
  | nil => exact h
  | cons c t ih =>
    cases hc : p c with
    | false => rwa [List.dropWhile_cons_of_neg (by simp [hc])]
    | true =>
      rw [List.dropWhile_cons_of_pos hc]
      rcases List.infix_cons_iff.1 h with hp | hi
      · obtain ⟨d, k, rfl⟩ := List.exists_cons_of_ne_nil hne
        obtain ⟨r, hr⟩ := hp
        rw [List.cons_append] at hr
        obtain ⟨rfl, -⟩ := List.cons.inj hr
        rw [hk d List.mem_cons_self] at hc
        exact Bool.noConfusion hc
      · exact ih hi

theorem infix_trim {k t : Text} (hne : k ≠ []) (hk : ∀ c ∈ k, isBlank c = false)
    (h : k <:+: t) : k <:+: trim t := by
  have hstart : k <:+: trimStart t := infix_dropWhile hne hk h
  rw [trim, trimEnd, dropEnd, ← List.reverse_infix, List.reverse_reverse]
  exact infix_dropWhile (by simpa using hne) (fun c hc => hk c (List.mem_reverse.1 hc))
    (List.reverse_infix.2 hstart)

/-- A text without the character `c` stands on one side of it. -/
theorem infix_append_cons {k a b : Text} {c : Char} (hc : c ∉ k) (h : k <:+: a ++ c :: b) :
    k <:+: a ∨ k <:+: b := by
  obtain ⟨x, y, h⟩ := h
  -- either `k` ends within `a`, or it reaches `c` or begins behind it
  rcases List.append_eq_append_iff.1 h with ⟨r, rfl, -⟩ | ⟨r, hx, hy⟩
  · exact Or.inl ⟨x, r, rfl⟩
  · cases r with
    | nil => exact Or.inl ⟨x, [], by rw [List.append_nil, hx, List.append_nil]⟩
    | cons d r =>
      obtain ⟨rfl, rfl⟩ := List.cons.inj hy
      rcases List.append_eq_append_iff.1 hx with ⟨u, -, rfl⟩ | ⟨u, -, hu⟩
      · exact absurd (List.mem_append_right u List.mem_cons_self) hc
      · cases u with
        | nil =>
          rw [List.nil_append] at hu
          exact absurd (hu ▸ List.mem_cons_self) hc
        | cons e u =>
          obtain ⟨-, rfl⟩ := List.cons.inj hu
          exact Or.inr ⟨u, y, rfl⟩

/-- The pieces of a text stand in it, and the first one stands at its beginning. -/
theorem infix_of_cut (p : Char → Bool) (t : Text) :
    ∃ s ss, cut p t = s :: ss ∧ s <+: t ∧ ∀ w ∈ ss, w <:+: t := by
  induction t with
  | nil => exact ⟨[], [], rfl, List.prefix_refl _, fun _ hw => absurd hw List.not_mem_nil⟩
  | cons c t ih =>
    obtain ⟨s, ss, hcut, hs, hss⟩ := ih
    have hlater : ∀ w ∈ ss, w <:+: c :: t := fun w hw => List.infix_cons (hss w hw)
    by_cases hc : p c = true
    · refine ⟨[], s :: ss, by rw [cut_cons_of_pos hc, hcut], List.nil_prefix, fun w hw => ?_⟩
      rcases List.mem_cons.1 hw with rfl | hw
      · exact List.infix_cons hs.isInfix
      · exact hlater w hw
    · obtain ⟨s', ss', hs', hcut'⟩ := cut_cons_of_neg (p := p) (c := c) (by simpa using hc) t
      obtain ⟨rfl, rfl⟩ := List.cons.inj (hcut.symm.trans hs')
      exact ⟨c :: s, ss, hcut', List.cons_prefix_cons.2 ⟨rfl, hs⟩, hlater⟩

/-! ## Words -/

/-- A text that is one word: it is not empty, and no blank is in it. -/
def IsWord (w : Text) : Prop := w ≠ [] ∧ ∀ c ∈ w, isBlank c = false

theorem isWord_of_mem_words {t w : Text} (h : w ∈ words t) : IsWord w := by
  rw [words, List.mem_filter] at h
  exact ⟨by simpa [List.isEmpty_iff] using h.2, fun c hc => (mem_of_mem_cut h.1 hc).2⟩

theorem mem_of_mem_words {t w : Text} (h : w ∈ words t) {c : Char} (hc : c ∈ w) : c ∈ t :=
  (mem_of_mem_cut (List.mem_filter.1 h).1 hc).1

theorem infix_of_mem_words {t w : Text} (h : w ∈ words t) : w <:+: t := by
  obtain ⟨s, ss, hcut, hs, hss⟩ := infix_of_cut isBlank t
  have hmem := (List.mem_filter.1 h).1
  rw [hcut] at hmem
  rcases List.mem_cons.1 hmem with rfl | hmem
  · exact hs.isInfix
  · exact hss w hmem

/-- A blank separates the words in front of it from those behind. -/
theorem words_append_cons {c : Char} (hc : isBlank c = true) (a b : Text) :
    words (a ++ c :: b) = words a ++ words b := by
  rw [words, cut_append_cons hc, List.filter_append]
  rfl

theorem words_of_isWord {w : Text} (h : IsWord w) : words w = [w] := by
  rw [words, cut_eq_singleton h.2]
  simp [h.1]

/-- The words put together are the text without its blanks. -/
theorem flatten_words (t : Text) : (words t).flatten = t.filter fun c => !isBlank c := by
  rw [words, ← flatten_cut]
  induction cut isBlank t with
  | nil => rfl
  | cons s ss ih =>
    cases s with
    | nil => exact ih
    | cons c s => rw [List.filter_cons_of_pos (by rfl), List.flatten_cons, List.flatten_cons, ih]

/-- A text without words is a text of blanks. -/
theorem words_eq_nil_iff {t : Text} : words t = [] ↔ ∀ c ∈ t, isBlank c = true := by
  constructor
  · intro h c hc
    by_contra hb
    have : c ∈ (words t).flatten := by
      rw [flatten_words]
      exact List.mem_filter.2 ⟨hc, by simpa using hb⟩
    rw [h] at this
    exact List.not_mem_nil this
  · intro h
    rw [List.eq_nil_iff_forall_not_mem]
    intro w hw
    obtain ⟨hne, hb⟩ := isWord_of_mem_words hw
    obtain ⟨c, r, rfl⟩ := List.exists_cons_of_ne_nil hne
    have hc := hb c List.mem_cons_self
    rw [h c (mem_of_mem_words hw List.mem_cons_self)] at hc
    exact Bool.noConfusion hc

/-- The words of texts joined by spaces are the words of each, in order. -/
theorem words_join_spaces (ts : List Text) : words (join [' '] ts) = ts.flatMap words := by
  induction ts with
  | nil => rfl
  | cons t ts ih =>
    by_cases hts : ts = []
    · subst hts
      simp [join]
    · rw [join_cons _ _ hts, List.append_assoc, List.singleton_append,
        words_append_cons (by decide), ih, List.flatMap_cons]

/-- Words with single spaces between them are found again. -/
theorem words_join {ws : List Text} (h : ∀ w ∈ ws, IsWord w) : words (join [' '] ws) = ws := by
  rw [words_join_spaces]
  induction ws with
  | nil => rfl
  | cons w ws ih =>
    rw [List.flatMap_cons, words_of_isWord (h w List.mem_cons_self),
      ih fun u hu => h u (List.mem_cons_of_mem _ hu)]
    rfl

/-! ## Collapsing -/

theorem words_collapse (t : Text) : words (collapse t) = words t :=
  words_join fun _ hw => isWord_of_mem_words hw

/-- Collapsing a text twice is collapsing it once. -/
theorem collapse_collapse (t : Text) : collapse (collapse t) = collapse t := by
  rw [collapse, words_collapse, collapse]

/-- A space between two texts that are not blank stays when they are collapsed. -/
theorem collapse_append_space {a b : Text} (ha : words a ≠ []) (hb : words b ≠ []) :
    collapse (a ++ ' ' :: b) = collapse a ++ ' ' :: collapse b := by
  rw [collapse, words_append_cons (by decide), join_append _ ha hb]
  simp [collapse]

/-- Texts that are not blank, joined by spaces, are collapsed one by one. -/
theorem collapse_join {ts : List Text} (h : ∀ t ∈ ts, words t ≠ []) :
    collapse (join [' '] ts) = join [' '] (ts.map collapse) := by
  induction ts with
  | nil => rfl
  | cons t ts ih =>
    have ht := h t List.mem_cons_self
    have hts := fun u hu => h u (List.mem_cons_of_mem t hu)
    by_cases hnil : ts = []
    · subst hnil
      rfl
    · have hmap : ts.map collapse ≠ [] := by simpa using hnil
      have hrest : words (join [' '] ts) ≠ [] := by
        obtain ⟨u, us, rfl⟩ := List.exists_cons_of_ne_nil hnil
        rw [words_join_spaces, List.flatMap_cons]
        exact List.append_ne_nil_of_left_ne_nil (hts u List.mem_cons_self) _
      rw [join_cons _ _ hnil, List.map_cons, join_cons _ _ hmap, List.append_assoc,
        List.append_assoc, List.singleton_append, List.singleton_append,
        collapse_append_space ht hrest, ih hts]

theorem mem_collapse {t : Text} {c : Char} (h : c ∈ collapse t) : c = ' ' ∨ c ∈ t := by
  rcases mem_join h with h | ⟨w, hw, hc⟩
  · exact Or.inl (List.mem_singleton.1 h)
  · exact Or.inr (mem_of_mem_words hw hc)

/-- Collapsing keeps everything but the blanks. -/
theorem filter_collapse (t : Text) :
    ((collapse t).filter fun c => !isBlank c) = t.filter fun c => !isBlank c := by
  rw [← flatten_words, words_collapse, flatten_words]

/-- A text whose only blanks are spaces, each of them between two words. -/
structure SingleSpaced (t : Text) : Prop where
  only_spaces : ∀ c ∈ t, isBlank c = true → c = ' '
  head_ne : t.head? ≠ some ' '
  last_ne : t.getLast? ≠ some ' '
  /-- No two neighbours are both spaces. -/
  no_double : t.IsChain fun c d => c = ' ' → d ≠ ' '

theorem isChain_of_no_space {t : Text} (h : ∀ c ∈ t, c ≠ ' ') :
    t.IsChain fun c d => c = ' ' → d ≠ ' ' := by
  induction t with
  | nil => exact .nil
  | cons c t ih =>
    have ht := ih fun d hd => h d (List.mem_cons_of_mem _ hd)
    cases t with
    | nil => exact .singleton c
    | cons d t => exact .cons_cons (fun hc => absurd hc (h c List.mem_cons_self)) ht

theorem IsWord.singleSpaced {w : Text} (h : IsWord w) : SingleSpaced w := by
  have hne : ∀ c ∈ w, c ≠ ' ' := by
    rintro c hc rfl
    exact absurd (h.2 _ hc) (by decide)
  refine ⟨fun c hc hb => ?_, fun hh => ?_, fun hl => ?_, isChain_of_no_space hne⟩
  · rw [h.2 c hc] at hb
    exact Bool.noConfusion hb
  · exact hne _ (List.mem_of_mem_head? hh) rfl
  · exact hne _ (List.mem_of_getLast? hl) rfl

/-- Two texts that are not empty, with a space between them. -/
theorem SingleSpaced.append_space {a b : Text} (ha : SingleSpaced a) (hb : SingleSpaced b)
    (hane : a ≠ []) (hbne : b ≠ []) : SingleSpaced (a ++ ' ' :: b) := by
  obtain ⟨x, a', rfl⟩ := List.exists_cons_of_ne_nil hane
  obtain ⟨y, b', rfl⟩ := List.exists_cons_of_ne_nil hbne
  refine ⟨fun c hc hblank => ?_, by simpa using ha.head_ne, ?_, ?_⟩
  · rcases List.mem_append.1 hc with hc | hc
    · exact ha.only_spaces c hc hblank
    · rcases List.mem_cons.1 hc with rfl | hc
      · rfl
      · exact hb.only_spaces c hc hblank
  · rw [List.getLast?_append, List.getLast?_cons_cons]
    simpa [List.getLast?_cons] using hb.last_ne
  · refine List.isChain_append.2 ⟨ha.no_double, ?_, ?_⟩
    · exact .cons_cons (fun _ hy => hb.head_ne (by simp [hy])) hb.no_double
    · intro c hc d _ hcs
      rw [hcs] at hc
      exact absurd hc ha.last_ne

theorem join_ne_nil {sep : Text} {ss : List Text} (hs : ss ≠ []) (h : ∀ s ∈ ss, s ≠ []) :
    join sep ss ≠ [] := by
  obtain ⟨s, ss, rfl⟩ := List.exists_cons_of_ne_nil hs
  have hne := h s List.mem_cons_self
  cases ss with
  | nil => exact hne
  | cons u us =>
    rw [join_cons _ _ (List.cons_ne_nil u us), List.append_assoc]
    exact List.append_ne_nil_of_left_ne_nil hne _

/-- Single-spaced texts joined by a space are single-spaced. -/
theorem singleSpaced_join {ss : List Text} (h : ∀ s ∈ ss, s ≠ [] ∧ SingleSpaced s) :
    SingleSpaced (join [' '] ss) := by
  induction ss with
  | nil => exact ⟨by simp [join], by simp [join], by simp [join], .nil⟩
  | cons s ss ih =>
    obtain ⟨hne, hs⟩ := h s List.mem_cons_self
    have hrest : ∀ u ∈ ss, u ≠ [] ∧ SingleSpaced u := fun u hu => h u (List.mem_cons_of_mem _ hu)
    by_cases hss : ss = []
    · subst hss
      exact hs
    · rw [join_cons _ _ hss, List.append_assoc, List.singleton_append]
      exact hs.append_space (ih hrest) hne (join_ne_nil hss fun u hu => (hrest u hu).1)

theorem singleSpaced_collapse (t : Text) : SingleSpaced (collapse t) := by
  refine singleSpaced_join fun w hw => ?_
  have hword := isWord_of_mem_words hw
  exact ⟨hword.1, hword.singleSpaced⟩

theorem cut_congr {p q : Char → Bool} {t : Text} (h : ∀ c ∈ t, p c = q c) :
    cut p t = cut q t := by
  induction t with
  | nil => rfl
  | cons c t ih =>
    rw [cut, cut, h c List.mem_cons_self, ih fun d hd => h d (List.mem_cons_of_mem _ hd)]

/-- Only the first piece of a text can be empty when its blanks are single and none of
them is the last character. -/
theorem cut_tail_ne_nil {t : Text} (hs : ∀ c ∈ t, isBlank c = true → c = ' ')
    (hl : t.getLast? ≠ some ' ') (hd : t.IsChain fun c d => c = ' ' → d ≠ ' ') :
    ∀ s ∈ (cut isBlank t).tail, s ≠ [] := by
  induction t with
  | nil => simp [cut]
  | cons c t ih =>
    have hst : ∀ d ∈ t, isBlank d = true → d = ' ' := fun d hm => hs d (List.mem_cons_of_mem _ hm)
    cases hc : isBlank c with
    | false =>
      obtain ⟨s, ss, hcut, hcut'⟩ := cut_cons_of_neg hc t
      cases t with
      | nil => simp [cut, hc]
      | cons d t =>
        rw [hcut', List.tail_cons]
        have := ih hst (by simpa [List.getLast?_cons_cons] using hl) (List.isChain_cons_cons.1 hd).2
        rwa [hcut] at this
    | true =>
      obtain rfl := hs c List.mem_cons_self hc
      cases t with
      | nil => exact absurd rfl hl
      | cons d t =>
        have hdne : d ≠ ' ' := (List.isChain_cons_cons.1 hd).1 rfl
        have hdb : isBlank d = false := by
          by_contra hb
          exact hdne (hst d List.mem_cons_self (by simpa using hb))
        obtain ⟨s, ss, hcut, hcut'⟩ := cut_cons_of_neg hdb t
        have := ih hst (by simpa [List.getLast?_cons_cons] using hl) (List.isChain_cons_cons.1 hd).2
        rw [cut_cons_of_pos hc, List.tail_cons, hcut']
        rw [hcut'] at this
        intro u hu
        rcases List.mem_cons.1 hu with rfl | hu
        · exact List.cons_ne_nil _ _
        · exact this u hu

/-- **The fixed points of collapsing.** A text is left alone exactly when its only blanks
are single spaces between words. -/
theorem singleSpaced_iff {t : Text} : SingleSpaced t ↔ collapse t = t := by
  constructor
  · intro h
    cases t with
    | nil => rfl
    | cons c t =>
      have hc : isBlank c = false := by
        by_contra hb
        exact h.head_ne (by simp [h.only_spaces c List.mem_cons_self (by simpa using hb)])
      obtain ⟨s, ss, -, hcut⟩ := cut_cons_of_neg hc t
      have htail := cut_tail_ne_nil h.only_spaces h.last_ne h.no_double
      have hall : words (c :: t) = cut isBlank (c :: t) := by
        rw [words, List.filter_eq_self]
        intro u hu
        rw [hcut] at hu htail
        rcases List.mem_cons.1 hu with rfl | hu
        · rfl
        · simpa [List.isEmpty_iff] using htail u hu
      have hcongr : cut isBlank (c :: t) = cut (· == ' ') (c :: t) := by
        refine cut_congr fun d hd => ?_
        cases hb : isBlank d with
        | true => simp [h.only_spaces d hd hb]
        | false =>
          refine (beq_eq_false_iff_ne.2 ?_).symm
          rintro rfl
          exact absurd hb (by decide)
      rw [collapse, hall, hcongr, join_cut]
  · intro h
    rw [← h]
    exact singleSpaced_collapse t

theorem SingleSpaced.head_not_blank {t : Text} (h : SingleSpaced t) {c : Char}
    (hc : t.head? = some c) : isBlank c = false := by
  by_contra hb
  exact h.head_ne (h.only_spaces c (List.mem_of_mem_head? hc) (by simpa using hb) ▸ hc)

theorem SingleSpaced.last_not_blank {t : Text} (h : SingleSpaced t) {c : Char}
    (hc : t.getLast? = some c) : isBlank c = false := by
  by_contra hb
  exact h.last_ne (h.only_spaces c (List.mem_of_getLast? hc) (by simpa using hb) ▸ hc)

theorem SingleSpaced.trim_eq_self {t : Text} (h : SingleSpaced t) : trim t = t := by
  exact Text.trim_eq_self (fun c hc => h.head_not_blank hc) fun c hc => h.last_not_blank hc

/-- The spaces around a single-spaced text are all that trimming takes away. -/
theorem SingleSpaced.trim_padded {t : Text} (h : SingleSpaced t) {e : Text}
    (he : e = [] ∨ e = [' ']) (hne : t ≠ []) : trim (' ' :: (t ++ e)) = t := by
  obtain ⟨c, u, rfl⟩ := List.exists_cons_of_ne_nil hne
  have hc : isBlank c = false := h.head_not_blank rfl
  have hstart : trimStart (' ' :: (c :: u ++ e)) = c :: u ++ e := by
    rw [trimStart, List.dropWhile_cons_of_pos (by decide), List.cons_append,
      List.dropWhile_cons_of_neg (by simp [hc])]
  have hend : trimEnd (c :: u) = c :: u := by
    have htrim := h.trim_eq_self
    rwa [trim, trimStart, List.dropWhile_cons_of_neg (by simp [hc])] at htrim
  rw [trim, hstart]
  rcases he with rfl | rfl
  · rw [List.append_nil, hend]
  · rw [trimEnd, dropEnd_concat_of_pos (by decide)]
    exact hend

theorem SingleSpaced.of_append {a b : Text} (h : SingleSpaced (a ++ b))
    (hl : a.getLast? ≠ some ' ') : SingleSpaced a := by
  refine ⟨fun c hc => h.only_spaces c (List.mem_append_left _ hc), ?_, hl,
    (List.isChain_append.1 h.no_double).1⟩
  cases a with
  | nil => simp
  | cons c a => simpa using h.head_ne

/-- A quotation is collapsed inside its quotes. -/
theorem collapse_quotation {q : Char} (hq : isBlank q = false) (t : Text) :
    ∃ u : Text, collapse (q :: (t ++ [q])) = q :: (u ++ [q]) ∧ ∀ c ∈ u, c = ' ' ∨ c ∈ t := by
  have hspaced := singleSpaced_collapse (q :: (t ++ [q]))
  have hfilter := filter_collapse (q :: (t ++ [q]))
  rw [List.filter_cons_of_pos (by simp [hq]), List.filter_append,
    List.filter_cons_of_pos (by simp [hq]), List.filter_nil] at hfilter
  cases hw : collapse (q :: (t ++ [q])) with
  | nil =>
    rw [hw] at hfilter
    exact absurd hfilter (by simp)
  | cons a v =>
    rw [hw] at hspaced hfilter
    have ha := hspaced.head_not_blank rfl
    rw [List.filter_cons_of_pos (by simp [ha]), List.cons.injEq] at hfilter
    obtain ⟨rfl, hfilter⟩ := hfilter
    rcases List.eq_nil_or_concat v with rfl | ⟨u, z, rfl⟩
    · exact absurd hfilter (by simp)
    · rw [List.concat_eq_append] at hspaced hfilter
      have hz : isBlank z = false := by
        refine hspaced.last_not_blank ?_
        rw [← List.cons_append, List.getLast?_concat]
      rw [List.filter_append, List.filter_cons_of_pos (by simp [hz]), List.filter_nil] at hfilter
      obtain ⟨hu, hzq⟩ := List.append_inj' hfilter rfl
      obtain rfl := List.head_eq_of_cons_eq hzq
      refine ⟨u, by rw [List.concat_eq_append], fun c hc => ?_⟩
      by_cases hb : isBlank c = true
      · exact Or.inl (hspaced.only_spaces c (by simp [hc]) hb)
      · have hmem : c ∈ u.filter fun c => !isBlank c := List.mem_filter.2 ⟨hc, by simpa using hb⟩
        rw [hu] at hmem
        exact Or.inr (List.mem_filter.1 hmem).1

theorem SingleSpaced.concat {t : Text} (h : SingleSpaced t) {c : Char} (hc : isBlank c = false) :
    SingleSpaced (t ++ [c]) := by
  have hne : c ≠ ' ' := by
    rintro rfl
    exact absurd hc (by decide)
  refine ⟨fun d hd hb => ?_, ?_, by simpa using hne, ?_⟩
  · rcases List.mem_append.1 hd with hd | hd
    · exact h.only_spaces d hd hb
    · rw [List.mem_singleton.1 hd, hc] at hb
      exact Bool.noConfusion hb
  · cases t with
    | nil => simpa using hne
    | cons d t => simpa using h.head_ne
  · refine List.isChain_append.2 ⟨h.no_double, .singleton c, ?_⟩
    intro x hx y hy _
    simp only [List.head?_cons, Option.mem_def, Option.some.injEq] at hy
    exact hy ▸ hne

end Text

end SqlScribe
