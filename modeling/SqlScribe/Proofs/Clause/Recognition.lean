import SqlScribe.Proofs.Clause.Reading

/-!
# Where keywords are recognised

What a keyword takes at a place of a text. Its word may be made of several words: they stand there
in order, in any case, with blanks between neighbours, and the keyword takes exactly that. Main
statements:

* `Keyword.after?_join_iff`: what remains of a text behind several words;
* `Keyword.Takes.unique`, `Keyword.Takes.lt_length`: how much a keyword takes;
* `Keyword.lengthAt?_eq_some_iff`: recognition is exact.
-/

namespace SqlScribe

open Text

/-! ## Phrases -/

theorem Text.asciiUpper_append (a b : Text) : asciiUpper (a ++ b) = asciiUpper a ++ asciiUpper b :=
  List.map_append

theorem Text.asciiUpper_join_spaces (ws : List Text) :
    asciiUpper (join [' '] ws) = join [' '] (ws.map asciiUpper) := by
  induction ws with
  | nil => rfl
  | cons w ws ih =>
    by_cases hws : ws = []
    · subst hws
      rfl
    · rw [List.map_cons, join_cons _ _ hws, join_cons _ _ (by simpa using hws), asciiUpper_append,
        asciiUpper_append, ih]
      rfl

/-- The capitals of an ASCII text. -/
theorem Text.uppercase_eq_asciiUpper {t : Text} (h : ∀ c ∈ t, c.toNat < 0x80) :
    uppercase t = asciiUpper t := by
  induction t with
  | nil => rfl
  | cons c t ih =>
    obtain ⟨hc, ht⟩ := List.forall_mem_cons.1 h
    rw [uppercase, List.flatMap_cons, upperOf, if_pos hc]
    exact congrArg (c.toUpper :: ·) (ih ht)

namespace Keyword

/-- The words that stand in a word with spaces in it. -/
def parts (word : Text) : List Text := cut (· == ' ') word

/-- Words of ASCII letters, at least one, with single spaces between them. -/
def IsPhrase (word : Text) : Prop := ∀ w ∈ parts word, w ≠ [] ∧ ∀ c ∈ w, c.isAlpha = true

instance (word : Text) : Decidable (IsPhrase word) := by
  unfold IsPhrase
  infer_instance

/-- The text spells the words, in order and in any case, with blanks between neighbours. -/
inductive Spelled : List Text → Text → Prop where
  | last {w u : Text} (h : u.asciiUpper = w.asciiUpper) : Spelled [w] u
  | more {w : Text} {ws : List Text} {u e v : Text} (h : u.asciiUpper = w.asciiUpper) (he : e ≠ [])
      (hblank : ∀ c ∈ e, isBlank c = true) (hv : Spelled ws v) : Spelled (w :: ws) (u ++ (e ++ v))

variable {w t r u : Text} {ws : List Text}

theorem ne_nil_of_spelled (h : Spelled ws u) : ws ≠ [] := by
  cases h <;> exact List.cons_ne_nil _ _

/-- What spells words of letters begins with one. -/
theorem Spelled.exists_cons (h : Spelled ws u)
    (hws : ∀ w ∈ ws, w ≠ [] ∧ ∀ c ∈ w, c.isAlpha = true) :
    ∃ c v, u = c :: v ∧ isBlank c = false := by
  have hbegins : ∀ {w a : Text}, w ≠ [] → (∀ c ∈ w, c.isAlpha = true) →
      a.asciiUpper = w.asciiUpper →
      ∃ c v, a = c :: v ∧ isBlank c = false := by
    intro w a hne hw ha
    obtain ⟨d, w, rfl⟩ := List.exists_cons_of_ne_nil hne
    cases a with
    | nil => exact absurd ha (by simp [asciiUpper])
    | cons c a =>
      obtain ⟨hc, -⟩ := List.cons.inj ha
      refine ⟨c, a, rfl, ?_⟩
      rw [← isBlank_toUpper, hc, isBlank_toUpper]
      exact isBlank_of_isAlpha (hw d List.mem_cons_self)
  cases h with
  | last h =>
    obtain ⟨hne, hw⟩ := hws _ List.mem_cons_self
    exact hbegins hne hw h
  | more h =>
    obtain ⟨hne, hw⟩ := hws _ List.mem_cons_self
    obtain ⟨c, v, rfl, hc⟩ := hbegins hne hw h
    exact ⟨c, _, rfl, hc⟩

theorem ne_space_of_isAlpha (hw : ∀ c ∈ w, c.isAlpha = true) : ∀ e ∈ w.asciiUpper, e ≠ ' ' := by
  rintro e he rfl
  obtain ⟨c, hc, hupper⟩ := List.mem_map.1 he
  have hblank : isBlank c = true := by
    rw [← isBlank_toUpper, hupper]
    decide
  rw [isBlank_of_isAlpha (hw c hc)] at hblank
  exact Bool.false_ne_true hblank

/-- Behind a space in the word the blanks go, and there are some. -/
theorem after?_space_iff {word : Text} : after? (' ' :: word) t = some r ↔
    ∃ c v, t = c :: v ∧ isBlank c = true ∧ after? word (v.dropWhile isBlank) = some r := by
  cases t with
  | nil => simp [after?]
  | cons c t => cases hc : isBlank c <;> simp [after?, hc]

/-- **What remains behind several words**: what stands behind a text that spells them. -/
theorem after?_join_iff (hne : ws ≠ []) (hws : ∀ w ∈ ws, w ≠ [] ∧ ∀ c ∈ w, c.isAlpha = true) :
    after? (join [' '] (ws.map asciiUpper)) t = some r ↔ ∃ u, t = u ++ r ∧ Spelled ws u := by
  induction ws generalizing t with
  | nil => exact absurd rfl hne
  | cons w ws ih =>
    obtain ⟨⟨-, hw⟩, hrest⟩ := List.forall_mem_cons.1 hws
    have hspace := ne_space_of_isAlpha hw
    by_cases hnil : ws = []
    · subst hnil
      rw [List.map_singleton, join, after?_eq_some_iff hspace]
      refine exists_congr fun u => and_congr_right fun _ => ⟨.last, fun hu => ?_⟩
      cases hu with
      | last h => exact h
      | more _ _ _ hv => exact absurd rfl (ne_nil_of_spelled hv)
    · rw [List.map_cons, join_cons _ _ (by simpa using hnil), List.append_assoc,
        List.singleton_append]
      constructor
      · intro h
        obtain ⟨u, v, rfl, hu, hv⟩ := after?_append hspace h
        obtain ⟨c, s, rfl, hc, hs⟩ := after?_space_iff.1 hv
        obtain ⟨x, hx, hspelled⟩ := (ih hnil hrest).1 hs
        refine ⟨u ++ (c :: s.takeWhile isBlank ++ x), ?_,
          .more hu (List.cons_ne_nil _ _) ?_ hspelled⟩
        · rw [List.append_assoc, List.append_assoc, ← hx, List.cons_append,
            List.takeWhile_append_dropWhile]
        · exact List.forall_mem_cons.2 ⟨hc, List.all_eq_true.1 List.all_takeWhile⟩
      · rintro ⟨u, rfl, hu⟩
        cases hu with
        | last => exact absurd rfl hnil
        | @more _ _ u e v h he hblank hv =>
          obtain ⟨c, e, rfl⟩ := List.exists_cons_of_ne_nil he
          obtain ⟨hc, he⟩ := List.forall_mem_cons.1 hblank
          obtain ⟨d, s, hcons, hd⟩ := hv.exists_cons hrest
          have hstop : ∀ x, (v ++ r).head? = some x → isBlank x = false := by
            rintro x hx
            rw [hcons] at hx
            exact Option.some.inj hx ▸ hd
          rw [List.append_assoc, after?_append_spelled hspace h]
          refine after?_space_iff.2 ⟨c, e ++ (v ++ r), by simp, hc, ?_⟩
          rw [dropWhile_append_of_head he hstop]
          exact (ih hnil hrest).2 ⟨v, rfl, hv⟩

theorem word_ofWord {word : Text} (h : IsPhrase word) (blank : Bool) (mayFollow : List Char) :
    (ofWord word blank mayFollow).word = join [' '] ((parts word).map asciiUpper) := by
  have hascii : ∀ c ∈ word, c.toNat < 0x80 := by
    intro c hc
    rw [← join_cut ' ' word] at hc
    rcases mem_join hc with hc | ⟨w, hw, hcw⟩
    · rw [List.mem_singleton.1 hc]
      decide
    · by_contra hcode
      have hnot := isAlpha_eq_false (Nat.le_of_not_lt hcode)
      rw [(h w hw).2 c hcw] at hnot
      exact Bool.noConfusion hnot
  rw [ofWord, uppercase_eq_asciiUpper hascii, parts, ← asciiUpper_join_spaces, join_cut]

/-! ## What a keyword takes -/

/-- At position `p` of the text `n` characters spell the word of the keyword. It stands there on its
own: no identifier runs into it and it is not behind a dot, and a character follows that may
follow. -/
structure Takes (word : Text) (blank : Bool) (mayFollow : List Char) (t : Text)
    (p n : Nat) : Prop where
  front : p = 0 ∨ ∃ c, t[p - 1]? = some c ∧ isIdentifierChar c = false ∧ c ≠ '.'
  spelled : Spelled (parts word) ((t.drop p).take n)
  behind : ∃ c, t[p + n]? = some c ∧ ((blank = true ∧ isBlank c = true) ∨ c ∈ mayFollow)

variable {word : Text} {blank : Bool} {mayFollow : List Char} {p n : Nat}

/-- A keyword is never the last thing in a text. -/
theorem Takes.lt_length (h : Takes word blank mayFollow t p n) : p + n < t.length := by
  obtain ⟨c, hc, -⟩ := h.behind
  exact (List.getElem?_eq_some_iff.1 hc).1

theorem accepts_ofWord_iff {c : Char} : (ofWord word blank mayFollow).accepts c = true ↔
    (blank = true ∧ isBlank c = true) ∨ c ∈ mayFollow := by
  simp [accepts, ofWord]

theorem mayStartAfter_iff (hp : p < t.length) :
    mayStartAfter (if p = 0 then none else t[p - 1]?) = true ↔
      p = 0 ∨ ∃ c, t[p - 1]? = some c ∧ isIdentifierChar c = false ∧ c ≠ '.' := by
  by_cases hzero : p = 0
  · simp [hzero, mayStartAfter]
  · obtain ⟨c, hc⟩ : ∃ c, t[p - 1]? = some c := ⟨_, List.getElem?_eq_getElem (by omega)⟩
    simp [hzero, hc, mayStartAfter]

/-- What the keyword takes is what its recognition gives. -/
theorem lengthAt?_ofWord_iff (h : IsPhrase word) :
    (ofWord word blank mayFollow).lengthAt? t p = some n ↔ Takes word blank mayFollow t p n := by
  have hparts : parts word ≠ [] := cut_ne_nil _ word
  rw [lengthAt?, length?_eq_some_iff, word_ofWord h]
  constructor
  · rintro ⟨hstart, d, r, hafter, hacc, hn⟩
    obtain ⟨u, hu, hspelled⟩ := (after?_join_iff hparts h).1 hafter
    obtain rfl : n = u.length := by simp [hn, hu]
    have hp : p < t.length := by
      have hlength := congrArg List.length hu
      simp only [List.length_drop, List.length_append, List.length_cons] at hlength
      omega
    refine ⟨(mayStartAfter_iff hp).1 hstart, ?_, d, ?_, accepts_ofWord_iff.1 hacc⟩
    · rwa [hu, List.take_left]
    · rw [← List.getElem?_drop, hu, List.getElem?_append_right (Nat.le_refl _), Nat.sub_self]
      rfl
  · intro htakes
    have hlt := htakes.lt_length
    obtain ⟨hfront, hspelled, d, hd, hacc⟩ := htakes
    have hcut : t.drop p = (t.drop p).take n ++ d :: t.drop (p + n + 1) := by
      conv_lhs => rw [← List.take_append_drop n (t.drop p)]
      rw [List.drop_drop, List.drop_eq_getElem_cons hlt, (List.getElem?_eq_some_iff.1 hd).2]
    refine ⟨(mayStartAfter_iff (by omega)).2 hfront, d, t.drop (p + n + 1), ?_,
      accepts_ofWord_iff.2 hacc, ?_⟩
    · exact (after?_join_iff hparts h).2 ⟨_, hcut, hspelled⟩
    · simp only [List.length_drop, List.length_cons]
      omega

/-- **Recognition is exact.** At every position of every text, a keyword of letters takes `n`
characters exactly if they spell its words there, where no identifier and no dot stands in front of
them and a character follows that may follow. There is one such number at most, and the text goes on
behind it. -/
theorem lengthAt?_eq_some_iff (h : IsPhrase word) (blank : Bool) (mayFollow : List Char) (t : Text)
    (p : Nat) :
    (∀ n, (ofWord word blank mayFollow).lengthAt? t p = some n ↔ Takes word blank mayFollow t p n) ∧
      (∀ m n, Takes word blank mayFollow t p m → Takes word blank mayFollow t p n → m = n) ∧
      ∀ n, Takes word blank mayFollow t p n → p + n < t.length := by
  refine ⟨fun n => lengthAt?_ofWord_iff h, fun m n hm hn => ?_, fun n hn => hn.lt_length⟩
  rw [← lengthAt?_ofWord_iff h] at hm hn
  exact Option.some.inj (hm.symm.trans hn)

/-- `Order` and `BY` with a line break between them take eleven characters behind a parenthesis, and
nothing behind a dot. -/
theorem lengthAt?_eq_some_iff_orderBy : IsPhrase "order by" ∧
    Takes "order by" true ['('] "(Order \n  BY(x" 1 11 ∧
    ∀ n, ¬ Takes "order by" true ['('] "t.Order \n  BY(x" 2 n := by
  have hphrase : IsPhrase "order by" := by decide
  refine ⟨hphrase, ?_, fun n hn => ?_⟩
  · exact ((lengthAt?_eq_some_iff hphrase true ['('] "(Order \n  BY(x" 1).1 11).1
      (by decide +kernel)
  · have hnone : (ofWord "order by" true ['(']).lengthAt? "t.Order \n  BY(x" 2 = none := by
      decide +kernel
    have hfound := ((lengthAt?_eq_some_iff hphrase true ['('] "t.Order \n  BY(x" 2).1 n).2 hn
    exact Option.some_ne_none n (hfound.symm.trans hnone)

end Keyword

end SqlScribe
