import SqlScribe.Proofs.Text.Class
import SqlScribe.Proofs.Text.Layout

/-!
# Texts with the same words

What texts with the same words have in common, and how a text is brought to single spaces
in two steps: runs of blanks are squeezed, and blanks at the ends are dropped. Main
statements:

* `words_trim`, `words_squeeze`: what keeps the words;
* `eq_of_words_eq`, `ink_congr`: what the words determine;
* `collapse_eq_trim_squeeze`: the two steps.
-/

namespace SqlScribe

namespace Text

/-! ## Words with spaces behind them -/

/-- The words of a text with a space behind each of them. -/
def spaced (t : Text) : Text := (words t).flatMap (· ++ [' '])

theorem join_append_words {us : List Text} (hus : us ≠ []) (ws : List Text) :
    join [' '] (ws ++ us) = ws.flatMap (· ++ [' ']) ++ join [' '] us := by
  induction ws with
  | nil => rfl
  | cons w ws ih =>
    rw [List.cons_append, join_cons _ _ (List.append_ne_nil_of_right_ne_nil ws hus), ih,
      List.flatMap_cons]
    simp only [List.append_assoc]

theorem spaced_eq_nil {t : Text} (h : words t = []) : spaced t = [] := by
  rw [spaced, h, List.flatMap_nil]

theorem spaced_eq {t : Text} (h : words t ≠ []) : spaced t = collapse t ++ [' '] := by
  obtain ⟨ws, w, hw⟩ := (List.eq_nil_or_concat (words t)).resolve_left h
  rw [List.concat_eq_append] at hw
  rw [spaced, collapse, hw, join_append_words (List.cons_ne_nil w []), List.flatMap_append]
  simp [join]

theorem words_spaced (t : Text) : words (spaced t) = words t := by
  by_cases h : words t = []
  · rw [spaced_eq_nil h, h]
    rfl
  · rw [spaced_eq h, words_append_cons (by decide), words_collapse]
    simp [words, cut]

/-! ## Texts with the same words -/

/-- Behind a blank new words begin. -/
theorem words_append_of_last {a : Text}
    (ha : ∀ c, a.getLast? = some c → isBlank c = true) (b : Text) :
    words (a ++ b) = words a ++ words b := by
  rcases List.eq_nil_or_concat a with rfl | ⟨a, c, rfl⟩
  · rfl
  · rw [List.concat_eq_append] at ha ⊢
    have hc := ha c List.getLast?_concat
    rw [List.append_assoc, List.singleton_append, words_append_cons hc, words_append_cons hc]
    simp [words, cut]

/-- In front of a blank a word ends. -/
theorem words_append_of_head {b : Text} (hb : ∀ c, b.head? = some c → isBlank c = true) (a : Text) :
    words (a ++ b) = words a ++ words b := by
  cases b with
  | nil => rw [List.append_nil]; exact (List.append_nil _).symm
  | cons c b =>
    have hc := hb c rfl
    rw [words_append_cons hc, show c :: b = [] ++ c :: b from rfl, words_append_cons hc]
    rfl

/-- What does not begin with a blank stays behind a text without the blanks at its start. -/
theorem trimStart_append_of_head {r : Text}
    (hr : ∀ c, r.head? = some c → isBlank c = false) (t : Text) :
    trimStart (t ++ r) = trimStart t ++ r := by
  simp only [trimStart, List.dropWhile_append]
  split
  · next h =>
    rw [List.isEmpty_iff.1 h]
    exact dropWhile_append_of_head (t := []) (by simp) hr
  · rfl

/-- What stands between the blanks at the ends of a text stays with what it is between. -/
theorem trim_append {a m e : Text} (hne : m ≠ []) (hh : ∀ c, m.head? = some c → isBlank c = false)
    (hl : ∀ c, m.getLast? = some c → isBlank c = false) :
    trim (a ++ (m ++ e)) = trimStart a ++ (m ++ trimEnd e) := by
  have hhead : ∀ c, (m ++ e).head? = some c → isBlank c = false := fun c hc =>
    hh c (by rwa [List.head?_append_of_ne_nil m hne] at hc)
  obtain ⟨e', he, hblank⟩ : ∃ e', e = trimEnd e ++ e' ∧ ∀ c ∈ e', isBlank c = true :=
    dropEnd_append_ending isBlank e
  have hlast : ∀ c, (trimStart a ++ (m ++ trimEnd e)).getLast? = some c → isBlank c = false := by
    intro c hc
    rw [List.getLast?_append_of_ne_nil _ (List.append_ne_nil_of_left_ne_nil hne _)] at hc
    by_cases hnil : trimEnd e = []
    · rw [hnil, List.append_nil] at hc
      exact hl c hc
    · rw [List.getLast?_append_of_ne_nil _ hnil] at hc
      exact getLast?_dropEnd hc
  rw [trim, trimStart_append_of_head hhead]
  conv_lhs => rw [he, ← List.append_assoc m, ← List.append_assoc (trimStart a)]
  exact dropEnd_append hlast hblank

/-- A beginning of a text that no blank begins or ends stays. -/
theorem prefix_trim {u t : Text} (h : u <+: t) (hne : u ≠ [])
    (hh : ∀ c, u.head? = some c → isBlank c = false)
    (hl : ∀ c, u.getLast? = some c → isBlank c = false) : u <+: trim t := by
  obtain ⟨e, rfl⟩ := h
  have htrim := trim_append (a := []) (e := e) hne hh hl
  rw [List.nil_append] at htrim
  exact ⟨trimEnd e, htrim.symm⟩

/-- Blanks at the start do not hide what a text ends in. -/
theorem getLast?_trimStart {t : Text} {c : Char} (hc : isBlank c = false) :
    (trimStart t).getLast? = some c ↔ t.getLast? = some c := by
  conv_rhs => rw [← List.takeWhile_append_dropWhile (p := isBlank) (l := t), List.getLast?_append]
  rw [trimStart]
  cases hlast : (t.dropWhile isBlank).getLast? with
  | some d => rfl
  | none =>
    constructor
    · exact fun h => absurd h (by simp)
    · intro h
      have hblank := List.all_eq_true.1 List.all_takeWhile c (List.mem_of_getLast? h)
      exact absurd (hblank.symm.trans hc) (by simp)

theorem words_trimStart (t : Text) : words (trimStart t) = words t := by
  rw [trimStart]
  induction t with
  | nil => rfl
  | cons c t ih =>
    by_cases hc : isBlank c = true
    · rw [List.dropWhile_cons_of_pos hc, ih]
      exact (words_append_cons hc [] t).symm
    · rw [List.dropWhile_cons_of_neg hc]

/-- The blanks at the ends of a text belong to no word. -/
theorem words_trim (t : Text) : words (trim t) = words t := by
  obtain ⟨e, he, hblank⟩ := dropEnd_append_ending isBlank (trimStart t)
  rw [trim, trimEnd, ← words_trimStart t]
  cases e with
  | nil => rw [List.append_nil] at he; rw [← he]
  | cons c e =>
    have hrest : words e = [] :=
      words_eq_nil_iff.2 fun d hd => hblank d (List.mem_cons_of_mem c hd)
    rw [he, words_append_cons (hblank c List.mem_cons_self), hrest, List.append_nil, ← he]

theorem trim_eq_nil_iff {t : Text} : trim t = [] ↔ words t = [] := by
  constructor
  · intro h
    rw [← words_trim, h]
    rfl
  · intro h
    rw [← words_trim, words_eq_nil_iff] at h
    by_contra hne
    obtain ⟨u, c, hc⟩ := (List.eq_nil_or_concat (trim t)).resolve_left hne
    have hlast : (trim t).getLast? = some c := by
      rw [hc, List.concat_eq_append, List.getLast?_concat]
    have hblank := h c (List.mem_of_getLast? hlast)
    rw [trim, trimEnd] at hlast
    exact absurd hblank (by simp [getLast?_dropEnd hlast])

/-- Two beginnings of a text with the same words, each in front of something that is not
blank, are the same. -/
theorem eq_of_words_eq {a b v w : Text} (h : a ++ v = b ++ w) (hwords : words a = words b)
    (hv : ∀ c, v.head? = some c → isBlank c = false)
    (hw : ∀ c, w.head? = some c → isBlank c = false) : a = b := by
  have hnone : ∀ {x e y : Text}, words (x ++ e) = words x →
      (∀ c, (e ++ y).head? = some c → isBlank c = false) → e = [] := by
    intro x e y hx he
    cases e with
    | nil => rfl
    | cons c e =>
      have hfilter := congrArg List.flatten hx
      rw [flatten_words, flatten_words, List.filter_append,
        List.filter_cons_of_pos (by simp [he c rfl])] at hfilter
      exact absurd hfilter (by simp)
  rcases List.append_eq_append_iff.1 h with ⟨e, rfl, rfl⟩ | ⟨e, rfl, rfl⟩
  · obtain rfl := hnone hwords.symm hv
    rw [List.append_nil]
  · obtain rfl := hnone hwords hw
    rw [List.append_nil]

/-! ## Ink -/

/-- The text without regard to layout and case: its characters but the blanks, ASCII letters in
capitals. -/
def ink (t : Text) : Text := asciiUpper (t.filter fun c => !isBlank c)

theorem ink_append (a b : Text) : ink (a ++ b) = ink a ++ ink b := by
  rw [ink, List.filter_append, asciiUpper, List.map_append]
  rfl

theorem ink_cons (c : Char) (t : Text) : ink (c :: t) = ink [c] ++ ink t := ink_append [c] t

theorem ink_of_blank {t : Text} (h : ∀ c ∈ t, isBlank c = true) : ink t = [] := by
  rw [ink, List.filter_eq_nil_iff.2 fun c hc => by simp [h c hc]]
  rfl

theorem ink_toUpper (c : Char) : ink [c.toUpper] = ink [c] := by
  cases hc : isBlank c with
  | true => rw [ink_of_blank (by simpa [isBlank_toUpper]), ink_of_blank (by simpa)]
  | false =>
    have hkept : ∀ d, isBlank d = false → ink [d] = [d.toUpper] := fun d hd => by
      rw [ink, List.filter_cons_of_pos (by simp [hd])]
      rfl
    rw [hkept c hc, hkept c.toUpper (by rw [isBlank_toUpper, hc]), toUpper_toUpper]

/-- The ink of a text is that of its words. -/
theorem ink_congr {a b : Text} (h : words a = words b) : ink a = ink b := by
  rw [ink, ink, ← flatten_words, ← flatten_words, h]

theorem ink_trim (t : Text) : ink (trim t) = ink t := ink_congr (words_trim t)

theorem ink_collapse (t : Text) : ink (collapse t) = ink t := ink_congr (words_collapse t)

theorem ink_join_spaces (ts : List Text) : ink (join [' '] ts) = ts.flatMap ink := by
  rw [ink, ← flatten_words, words_join_spaces]
  induction ts with
  | nil => rfl
  | cons t ts ih =>
    rw [List.flatMap_cons, List.flatten_append, flatten_words, asciiUpper, List.map_append,
      List.flatMap_cons]
    exact congrArg (ink t ++ ·) ih

/-! ## Runs of blanks -/

/-- The text with every run of blanks written as one space. -/
def squeeze : Text → Text
  | [] => []
  | c :: t =>
      if isBlank c then
        if t.head?.any isBlank then squeeze t else ' ' :: squeeze t
      else c :: squeeze t

/-- No run of blanks goes from one text into the next. -/
theorem squeeze_append {a b : Text} (h : (∀ c, a.getLast? = some c → isBlank c = false) ∨
    ∀ c, b.head? = some c → isBlank c = false) : squeeze (a ++ b) = squeeze a ++ squeeze b := by
  induction a with
  | nil => rfl
  | cons c a ih =>
    cases a with
    | nil =>
      by_cases hc : isBlank c = true
      · have hb := h.resolve_left fun hlast => absurd hc (by simp [hlast c rfl])
        cases b with
        | nil => simp [squeeze]
        | cons d b => simp [squeeze, hc, hb d rfl]
      · simp [squeeze, hc]
    | cons d a =>
      rw [List.getLast?_cons_cons] at h
      rw [List.cons_append, squeeze, ih h, squeeze.eq_2 c (d :: a)]
      simp only [List.cons_append, List.head?_cons, Option.any_some]
      by_cases hc : isBlank c = true
      · by_cases hd : isBlank d = true
        · simp [hc, hd]
        · simp [hc, hd]
      · simp only [if_neg hc, List.cons_append]

theorem mem_of_mem_squeeze {t : Text} {c : Char} (hc : c ∈ squeeze t) : c = ' ' ∨ c ∈ t := by
  induction t with
  | nil => exact absurd hc List.not_mem_nil
  | cons d t ih =>
    rw [squeeze] at hc
    split at hc
    · split at hc
      · exact (ih hc).imp_right (List.mem_cons_of_mem d)
      · rcases List.mem_cons.1 hc with rfl | hc
        · exact Or.inl rfl
        · exact (ih hc).imp_right (List.mem_cons_of_mem d)
    · rcases List.mem_cons.1 hc with rfl | hc
      · exact Or.inr List.mem_cons_self
      · exact (ih hc).imp_right (List.mem_cons_of_mem d)

theorem isBlank_of_mem_squeeze {t : Text} {c : Char} (hc : c ∈ squeeze t)
    (hblank : isBlank c = true) : c = ' ' := by
  induction t with
  | nil => exact absurd hc List.not_mem_nil
  | cons d t ih =>
    rw [squeeze] at hc
    split at hc
    · split at hc
      · exact ih hc
      · rcases List.mem_cons.1 hc with rfl | hc
        · rfl
        · exact ih hc
    · next hd =>
      rcases List.mem_cons.1 hc with rfl | hc
      · exact absurd hblank hd
      · exact ih hc

/-- A text that does not begin with a blank still does not when it is squeezed. -/
theorem head_squeeze {t : Text} (h : t.head?.any isBlank = false) :
    (squeeze t).head? = t.head? := by
  cases t with
  | nil => rfl
  | cons c t =>
    have hc : isBlank c = false := by simpa using h
    simp [squeeze, hc]

theorem isChain_squeeze (t : Text) :
    (squeeze t).IsChain fun c d => c = ' ' → d ≠ ' ' := by
  induction t with
  | nil => exact .nil
  | cons c t ih =>
    rw [squeeze]
    split
    · split
      · exact ih
      · next hhead =>
        have hfirst := head_squeeze (by simpa using hhead)
        refine List.isChain_cons.2 ⟨fun d hd _ => ?_, ih⟩
        rintro rfl
        rw [hfirst] at hd
        exact hhead (by rw [hd]; decide)
    · next hc =>
      refine List.isChain_cons.2 ⟨fun d _ hsp => ?_, ih⟩
      subst hsp
      exact absurd (by decide) hc

/-- Squeezing a text keeps its words, also the part of a word it begins with. -/
theorem cut_squeeze (t : Text) : ∃ s ss us, cut isBlank t = s :: ss ∧
    cut isBlank (squeeze t) = s :: us ∧
    (us.filter fun w => !w.isEmpty) = ss.filter fun w => !w.isEmpty := by
  induction t with
  | nil => exact ⟨[], [], [], rfl, rfl, rfl⟩
  | cons c t ih =>
    obtain ⟨s, ss, us, ht, hsq, hfilter⟩ := ih
    by_cases hc : isBlank c = true
    · rw [cut_cons_of_pos hc, squeeze, if_pos hc]
      split
      · next hhead =>
        cases t with
        | nil => exact absurd hhead (by simp)
        | cons d t =>
          have hd : isBlank d = true := by simpa using hhead
          rw [cut_cons_of_pos hd] at ht
          obtain ⟨rfl, rfl⟩ := List.cons.inj ht
          exact ⟨[], _, us, rfl, hsq, by rw [hfilter, cut_cons_of_pos hd]; rfl⟩
      · rw [cut_cons_of_pos (by decide)]
        refine ⟨[], _, _, rfl, rfl, ?_⟩
        rw [ht, hsq, List.filter_cons, List.filter_cons, hfilter]
    · have hc : isBlank c = false := by simpa using hc
      obtain ⟨s₁, ss₁, h₁, hcut₁⟩ := cut_cons_of_neg hc t
      obtain ⟨s₂, ss₂, h₂, hcut₂⟩ := cut_cons_of_neg hc (squeeze t)
      rw [ht] at h₁
      rw [hsq] at h₂
      obtain ⟨rfl, rfl⟩ := List.cons.inj h₁
      obtain ⟨rfl, rfl⟩ := List.cons.inj h₂
      exact ⟨c :: s, ss, us, hcut₁, by simpa [squeeze, hc] using hcut₂, hfilter⟩

theorem words_squeeze (t : Text) : words (squeeze t) = words t := by
  obtain ⟨s, ss, us, ht, hsq, hfilter⟩ := cut_squeeze t
  rw [words, words, ht, hsq, List.filter_cons, List.filter_cons, hfilter]

/-- A text without other blanks than single spaces is single-spaced when it is trimmed. -/
theorem singleSpaced_trim {t : Text} (hspaces : ∀ c ∈ t, isBlank c = true → c = ' ')
    (hchain : t.IsChain fun c d => c = ' ' → d ≠ ' ') : SingleSpaced (trim t) := by
  obtain ⟨e, he, -⟩ := dropEnd_append_ending isBlank (trimStart t)
  have hsplit : t = t.takeWhile isBlank ++ (trim t ++ e) := by
    rw [trim, trimEnd, ← he, trimStart, List.takeWhile_append_dropWhile]
  refine ⟨fun c hc => hspaces c (mem_of_mem_trim hc), fun hh => ?_, fun hl => ?_, ?_⟩
  · have hfirst : (trimStart t).head? = some ' ' := by
      rw [he, List.head?_append]
      show (trim t).head?.or _ = _
      rw [hh]
      rfl
    have hnot := List.head?_dropWhile_not isBlank t
    rw [trimStart] at hfirst
    rw [hfirst] at hnot
    exact absurd hnot (by decide)
  · exact absurd (getLast?_dropEnd (p := isBlank) hl) (by decide)
  · rw [hsplit] at hchain
    exact (List.isChain_append.1 (List.isChain_append.1 hchain).2.1).1

theorem collapse_eq_trim {t : Text} (h : SingleSpaced (trim t)) : collapse t = trim t := by
  rw [← singleSpaced_iff.1 h, collapse, collapse, words_trim]

/-- Collapsing a text is squeezing the runs of blanks in it and dropping those at its ends. -/
theorem collapse_eq_trim_squeeze (t : Text) : collapse t = trim (squeeze t) := by
  have hspaced := singleSpaced_trim (fun c hc => isBlank_of_mem_squeeze hc) (isChain_squeeze t)
  rw [← collapse_eq_trim hspaced, collapse, collapse, words_squeeze]

end Text

end SqlScribe
