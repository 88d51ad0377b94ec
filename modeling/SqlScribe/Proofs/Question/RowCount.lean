import SqlScribe.Proofs.Pattern.Choice
import SqlScribe.Proofs.Question.Fronts
import SqlScribe.Proofs.Question.Mentions
import SqlScribe.Proofs.Question.Phrase
import SqlScribe.Proofs.Text.Squeeze

/-!
# Numbers of rows

Where a number of rows is read from. Keywords are looked for on their own, but the words in front of
a number of rows stand anywhere, also at the end of a longer word. So a question that mentions none
of them can hide a number of rows. Main statements:

* `CountsByWord.rowCountIn?_iff`: the number of rows is that of the first such word with digits
  behind it;
* `FirstCount.isHidden`: a word that is not mentioned is part of a longer one;
* `limit_usual_or_hidden`: the limit of a question that mentions no number of rows.
-/

namespace SqlScribe

open Pattern Question Text

/-! ## Places with a number of rows -/

/-- A word in front of a number of rows, in any case. -/
def IsCountWord (g : Text) : Prop := SameLetters g "top" ∨ SameLetters g "first"

/-- Such a word `g` and the digits `d` behind it, all of them, with blanks `e` between them. -/
structure Counted (g e d r : Text) : Prop where
  word : IsCountWord g
  gap : ∀ c ∈ e, isBlank c = true
  digits : ∀ c ∈ d, isDecimal c = true
  ne_nil : d ≠ []
  whole : ∀ c, r.head? = some c → isDecimal c = false

/-- The first such word in the text is `g`, which stands behind `u` and in front of the number
`n`. -/
structure FirstCount (t u g : Text) (n : Nat) : Prop where
  place : ∃ e d r, Counted g e d r ∧ t = u ++ ((g ++ e ++ d) ++ r) ∧
    d.toNatUpTo? 4294967295 = some n
  first : ∀ u' g' e d r, Counted g' e d r → t = u' ++ ((g' ++ e ++ d) ++ r) → u.length ≤ u'.length

namespace ReadingPattern

/-- The number of rows itself. -/
def count : Pattern := group 1 (run1 .decimal)

theorem rowCount_eq : rowCount = alt (count ++ blanks ++ literal "명")
    (alt (literal "상위" ++ blanks ++ count) (alt (literal "하위" ++ blanks ++ count)
      (alt (letters "top" ++ blanks ++ count) (letters "first" ++ blanks ++ count)))) := rfl

end ReadingPattern

theorem exists_cons_of_sameLetters {g w : Text} {c : Char} (h : SameLetters g (c :: w)) :
    ∃ x s, g = x :: s ∧ simpleFold x = simpleFold c := by
  obtain ⟨x, s, hg, hx, -⟩ := List.map_eq_cons_iff.1 h
  exact ⟨x, s, hg, hx⟩

theorem IsCountWord.exists_head {g : Text} (h : IsCountWord g) : ∃ c s, g = c :: s ∧
    ((SameLetters g "top" ∧ simpleFold c = 't') ∨
      (SameLetters g "first" ∧ simpleFold c = 'f')) := by
  rcases h with h | h
  · obtain ⟨c, s, rfl, hc⟩ := exists_cons_of_sameLetters h
    exact ⟨c, s, rfl, Or.inl ⟨h, hc⟩⟩
  · obtain ⟨c, s, rfl, hc⟩ := exists_cons_of_sameLetters h
    exact ⟨c, s, rfl, Or.inr ⟨h, hc⟩⟩

namespace Counted

open ReadingPattern

variable {b : Option Char} {g e d r : Text}

/-- Behind the word the blanks and the digits are taken. -/
theorem first_counted (h : Counted g e d r) {k : Text} (hg : SameLetters g k) :
    first (letters k ++ blanks ++ count) ⟨b, g ++ (e ++ (d ++ r)), []⟩ some =
      some ⟨d.getLast?.or (e.getLast?.or (g.getLast?.or b)), r, [⟨1, d ++ r, r⟩]⟩ := by
  have hnext : ∀ y, (d ++ r).head? = some y → isBlank y = false := by
    intro y hy
    rw [List.head?_append_of_ne_nil d h.ne_nil] at hy
    exact isBlank_of_isDecimal (h.digits y (List.mem_of_mem_head? hy))
  simp only [first_append]
  rw [first_letters hg, first_blanks_append h.gap hnext, count, first_group,
    AmountPattern.first_digits h.ne_nil h.digits h.whole]
  rfl

/-- In front of the letters of the word no other way to say a number of rows begins. -/
theorem first_rowCount (h : Counted g e d r) :
    first rowCount ⟨b, g ++ (e ++ (d ++ r)), []⟩ some =
      some ⟨d.getLast?.or (e.getLast?.or (g.getLast?.or b)), r, [⟨1, d ++ r, r⟩]⟩ := by
  obtain ⟨c, s, rfl, hword⟩ := h.word.exists_head
  have hdecimal : isDecimal c = false := by
    have hletters : isDecimal 't' = false ∧ isDecimal 'f' = false := by decide +kernel
    refine Bool.eq_false_iff.2 fun hc => ?_
    rcases hword with ⟨-, hfold⟩ | ⟨-, hfold⟩ <;>
      rw [simpleFold_of_isDecimal hc] at hfold <;> subst hfold
    · exact Bool.false_ne_true (hletters.1.symm.trans hc)
    · exact Bool.false_ne_true (hletters.2.symm.trans hc)
  have hcount : ∀ K, first count ⟨b, c :: s ++ (e ++ (d ++ r)), []⟩ K = none := by
    intro K
    rw [count, run1, first_group, first_append]
    exact first_one_of_not_has fun y hy => Option.some.inj hy ▸ hdecimal
  have hends : ∀ w : Text, (w = "상위" ∨ w = "하위") → ∀ K,
      first (literal w) ⟨b, c :: s ++ (e ++ (d ++ r)), []⟩ K = none := by
    intro w hw K
    refine first_literal_of_head ?_ fun heq => ?_
    · rcases hw with rfl | rfl <;> decide
    · have hfold : w.head?.map simpleFold = some (simpleFold c) := by rw [heq]; rfl
      rcases hw with rfl | rfl <;> rcases hword with ⟨-, hc⟩ | ⟨-, hc⟩ <;> rw [hc] at hfold <;>
        exact absurd hfold (by decide)
  rw [rowCount_eq, first_alt_of_none (by simp only [first_append, hcount]),
    first_alt_of_none (by simp only [first_append, hends _ (Or.inl rfl)]),
    first_alt_of_none (by simp only [first_append, hends _ (Or.inr rfl)])]
  rcases hword with ⟨hg, -⟩ | ⟨hg, hc⟩
  · exact first_alt_of_some (h.first_counted hg)
  · rw [first_alt_of_none]
    · exact h.first_counted hg
    · simp only [first_append]
      refine first_letters_eq_none fun v w hvw hv => ?_
      obtain ⟨y, v, rfl, hy⟩ := exists_cons_of_sameLetters hv
      obtain ⟨rfl, -⟩ := List.cons.inj hvw
      exact absurd (hc.symm.trans hy) (by decide)

/-- **A number of rows is found where it stands.** -/
theorem matchAt?_rowCount (h : Counted g e d r) :
    rowCount.matchAt? b ((g ++ e ++ d) ++ r) = some ⟨b, g ++ e ++ d, [(1, d)], r⟩ := by
  have hsplit : g ++ (e ++ (d ++ r)) = (g ++ e ++ d) ++ r := by simp only [List.append_assoc]
  have hne : g ++ e ++ d ≠ [] := by simp [h.ne_nil]
  have hfirst := h.first_rowCount (b := b)
  rw [hsplit] at hfirst
  rw [matchAt?_of_first hfirst hne, List.map_singleton, text_capture]

end Counted

/-- In this text numbers of rows stand behind the words for them only: it does not count persons,
and speaks of no end of an order. -/
structure CountsByWord (t : Text) : Prop where
  persons : '명' ∉ t
  upper : ¬ "상위".toList <:+: t
  lower : ¬ "하위".toList <:+: t

theorem CountsByWord.mono {t w : Text} (h : CountsByWord t) (hw : w <:+: t) : CountsByWord w where
  persons hmem := h.persons (hw.subset hmem)
  upper hin := h.upper (hin.trans hw)
  lower hin := h.lower (hin.trans hw)

/-- Behind a word and blanks all digits are taken. -/
theorem counted_takeWhile {g e d r : Text} (hg : IsCountWord g) (he : ∀ c ∈ e, isBlank c = true)
    (hd : ∀ c ∈ d, isDecimal c = true) (hne : d ≠ []) :
    Counted g e (d ++ r.takeWhile isDecimal) (r.dropWhile isDecimal) where
  word := hg
  gap := he
  digits c hc := (List.mem_append.1 hc).elim (hd c) (List.all_eq_true.1 List.all_takeWhile c)
  ne_nil := by simp [hne]
  whole _ hc := not_of_head?_dropWhile hc

/-- Where a number of rows is found, there is a word with digits behind it. -/
theorem CountsByWord.exists_counted {b : Option Char} {w : Text} {m : Match} (h : CountsByWord w)
    (hm : ReadingPattern.rowCount.matchAt? b w = some m) :
    ∃ g e d r, w = (g ++ e ++ d) ++ r ∧ Counted g e d r := by
  have hof := isOf_of_matchAt? hm
  have hw := hof.text_append
  have hspells := hof.spells
  rw [ReadingPattern.rowCount_eq] at hspells
  have hbehind : ∀ g e d, m.text = (g ++ e) ++ d → IsCountWord g → (∀ c ∈ e, isBlank c = true) →
      (run1 .decimal).Spells d → ∃ g e d r, w = (g ++ e ++ d) ++ r ∧ Counted g e d r := by
    rintro g e _ htext hg he ⟨x, ds, rfl, ⟨c, rfl, hc⟩, hds⟩
    have hd : ∀ y ∈ [c] ++ ds, isDecimal y = true := List.forall_mem_cons.2 ⟨hc, hds⟩
    refine ⟨g, e, _, _, ?_, counted_takeWhile (r := m.after) hg he hd (by simp)⟩
    rw [← hw, htext]
    simp only [List.append_assoc, List.takeWhile_append_dropWhile]
  rcases hspells with ⟨_, v, ht, -, hv⟩ | ⟨_, d, ht, ⟨v, e, rfl, hv, -⟩, -⟩ |
    ⟨_, d, ht, ⟨v, e, rfl, hv, -⟩, -⟩ | ⟨_, d, ht, ⟨g, e, rfl, hg, he⟩, hd⟩ |
    ⟨_, d, ht, ⟨g, e, rfl, hg, he⟩, hd⟩
  · obtain rfl : v = "명" := spells_literal.1 hv
    refine absurd ?_ h.persons
    rw [← hw, ht]
    simp
  · obtain rfl : v = "상위" := spells_literal.1 hv
    refine absurd ⟨[], e ++ (d ++ m.after), ?_⟩ h.upper
    rw [← hw, ht, List.nil_append, List.append_assoc, List.append_assoc]
  · obtain rfl : v = "하위" := spells_literal.1 hv
    refine absurd ⟨[], e ++ (d ++ m.after), ?_⟩ h.lower
    rw [← hw, ht, List.nil_append, List.append_assoc, List.append_assoc]
  · exact hbehind g e d ht (Or.inl (spells_letters.1 hg)) he hd
  · exact hbehind g e d ht (Or.inr (spells_letters.1 hg)) he hd

/-- **Which number of rows is read.** -/
theorem CountsByWord.rowCountIn?_iff {t : Text} {n : Nat} (h : CountsByWord t) :
    rowCountIn? t = some n ↔ ∃ u g, FirstCount t u g n := by
  rw [rowCountIn?]
  constructor
  · intro hn
    split at hn
    · exact absurd hn (by simp)
    · next m hm =>
      obtain ⟨u, w, rfl, hat, hbefore⟩ := find?_eq_some_iff.1 hm
      obtain ⟨g, e, d, r, rfl, hc⟩ := (h.mono (List.suffix_append u w).isInfix).exists_counted hat
      obtain rfl := Option.some.inj (hc.matchAt?_rowCount.symm.trans hat)
      refine ⟨u, g, ⟨e, d, r, hc, rfl, hn⟩, fun u' g' e' d' r' hc' ht => ?_⟩
      by_contra hlt
      -- an earlier place would have been found
      rcases List.append_eq_append_iff.1 ht with ⟨x, hx, -⟩ | ⟨x, hx, hrest⟩
      · rw [hx, List.length_append] at hlt
        omega
      · cases x with
        | nil =>
          rw [hx, List.append_nil] at hlt
          omega
        | cons y x =>
          have hnone := hbefore u' y x hx
          rw [← hrest, hc'.matchAt?_rowCount] at hnone
          exact absurd hnone (by simp)
  · rintro ⟨u, g, ⟨e, d, r, hc, ht, hn⟩, hfirst⟩
    have hfind : ReadingPattern.rowCount.find? t = some ⟨u.getLast?, g ++ e ++ d, [(1, d)], r⟩ := by
      rw [find?_eq_some_iff]
      refine ⟨u, _, ht, hc.matchAt?_rowCount, fun a x s hu => ?_⟩
      by_contra hsome
      obtain ⟨m, hm⟩ := Option.ne_none_iff_exists'.1 hsome
      have hsplit : t = a ++ (x :: s ++ ((g ++ e ++ d) ++ r)) := by
        rw [ht, hu]
        simp only [List.append_assoc]
      have hin : x :: s ++ ((g ++ e ++ d) ++ r) <:+: t := ⟨a, [], by rw [hsplit]; simp⟩
      obtain ⟨g', e', d', r', hw, hc'⟩ := (h.mono hin).exists_counted hm
      have hle := hfirst a g' e' d' r' hc' (hw ▸ hsplit)
      rw [hu, List.length_append, List.length_cons] at hle
      omega
    rw [hfind]
    exact hn

/-! ## Words that are not mentioned -/

/-- The word is not taken for the keyword: it ends a longer word, or is spelled with a long s. -/
def IsHidden (u g : Text) : Prop := u.getLast?.any goesOnWord = true ∨ 'ſ' ∈ g

theorem isDigit_of_toNatUpTo? {d : Text} {max n : Nat} (h : d.toNatUpTo? max = some n) :
    ∀ c ∈ d, c.isDigit = true := by
  rw [toNatUpTo?, Option.filter_eq_some_iff] at h
  exact (isDigit_of_toNat? h.1).2

theorem mentions_of_counted {t u g e d r k : Text} (ht : t.trim = u ++ ((g ++ e ++ d) ++ r))
    (h : Counted g e d r) (hd : ∀ c ∈ d, c.isDigit = true) (hnot : ¬ IsHidden u g)
    (hg : SameLetters g k) (hne : k ≠ []) (hk : ∀ c ∈ k, c.isLower = true) (hkelvin : 'k' ∉ k) :
    (ofText t).mentions k = true := by
  have hkelvin' : '\u212a' ∉ g := fun hmem => by
    have hfold : 'k' ∈ g.map simpleFold := List.mem_map_of_mem (f := simpleFold) hmem
    rw [hg] at hfold
    obtain ⟨c, hc, heq⟩ := List.mem_map.1 hfold
    rw [simpleFold_of_isLower (hk c hc)] at heq
    exact hkelvin (heq ▸ hc)
  simp only [IsHidden, not_or, Bool.not_eq_true] at hnot
  refine mentions_of_sameLetters (r := e ++ (d ++ r)) ?_ hg hne hk hnot.2 hkelvin' hnot.1
    fun c hc => ?_
  · rw [ht]
    simp only [List.append_assoc]
  · by_cases hnil : e = []
    · rw [hnil, List.nil_append, List.head?_append_of_ne_nil d h.ne_nil] at hc
      exact Or.inr (hd c (List.mem_of_mem_head? hc))
    · rw [List.head?_append_of_ne_nil e hnil] at hc
      exact Or.inl (h.gap c (List.mem_of_mem_head? hc))

/-- **A number of rows that no keyword speaks of.** -/
theorem FirstCount.isHidden {t u g : Text} {n : Nat} (h : FirstCount t.trim u g n)
    (htop : (ofText t).mentions "top" = false) (hfirst : (ofText t).mentions "first" = false) :
    IsHidden u g := by
  obtain ⟨e, d, r, hc, ht, hn⟩ := h.place
  have hd := isDigit_of_toNatUpTo? hn
  by_contra hnot
  rcases hc.word with hg | hg
  · have hmentions := mentions_of_counted ht hc hd hnot hg (by decide) (by decide) (by decide)
    exact Bool.false_ne_true (htop.symm.trans hmentions)
  · have hmentions := mentions_of_counted ht hc hd hnot hg (by decide) (by decide) (by decide)
    exact Bool.false_ne_true (hfirst.symm.trans hmentions)

/-! ## The limit -/

/-- A limit that is no number of the question. -/
def UsualLimit (q : Question) (r : Reading) : Prop :=
  r.request.limit = none ∨ (r.request.limit = some 1 ∧ q.mentionsAny superlativeKeywords = true) ∨
    (r.request.limit = some 5 ∧ r.request.order.isSome = true) ∨
    (r.request.limit = some 10 ∧ r.request = .fallback)

section Limit

variable {s : Schema} {t : Text} {n : Nat}

theorem limit?_of_rowCount (h : rowCountIn? t.trim = some n) (ordered : Bool) :
    (ofText t).limit? ordered = some n := by
  have hasked : rowCountIn? (ofText t).asked = some n := h
  rw [limit?, hasked]

/-- Only rows of a table of the schema have a limit of their own. -/
theorem limit_readQuestion (s : Schema) (t : Text) : (readQuestion t s).request = .fallback ∨
    (readQuestion t s).request.limit = none ∨
    (readQuestion t s).request.limit
      = (ofText t).limit? (readQuestion t s).request.order.isSome := by
  rw [readQuestion]
  rcases read_eq (ofText t) s with ⟨ds, hread⟩ | ⟨name, table, -, -, hread⟩
  · rw [hread]
    exact Or.inl rfl
  · rw [hread]
    cases hintent : (ofText t).intent with
    | select => exact Or.inr (Or.inr rfl)
    | count => exact Or.inr (Or.inl rfl)
    | aggregate a => exact Or.inr (Or.inl rfl)

/-- Without a number of rows the limit is a usual one. -/
theorem usualLimit_or_of_rowCount (s : Schema) (t : Text) :
    UsualLimit (ofText t) (readQuestion t s) ∨
    ∃ n, rowCountIn? t.trim = some n ∧ (readQuestion t s).request.limit = some n := by
  rcases limit_readQuestion s t with hfallback | hnone | hlimit
  · refine Or.inl (Or.inr (Or.inr (Or.inr ⟨?_, hfallback⟩)))
    rw [hfallback]
    rfl
  · exact Or.inl (Or.inl hnone)
  · cases hcount : rowCountIn? t.trim with
    | some n => exact Or.inr ⟨n, rfl, hlimit.trans (limit?_of_rowCount hcount _)⟩
    | none =>
      have hasked : rowCountIn? (ofText t).asked = none := hcount
      rw [limit?, hasked] at hlimit
      simp only at hlimit
      refine Or.inl ?_
      split at hlimit
      · next hsuperlative => exact Or.inr (Or.inl ⟨hlimit, hsuperlative⟩)
      · split at hlimit
        · next horder => exact Or.inr (Or.inr (Or.inl ⟨hlimit, horder⟩))
        · exact Or.inl hlimit

/-- A number of rows is the limit of a question for rows of a table of the schema. -/
theorem limit_of_rowCount (h : rowCountIn? t.trim = some n) (hintent : (ofText t).intent = .select)
    (htable :
      (s.table? (((ofText t).tableRule?.map TableRule.table).getD defaultTable)).isSome = true) :
    (readQuestion t s).request.limit = some n := by
  obtain ⟨table, htable⟩ := Option.isSome_iff_exists.1 htable
  have hlimit : ((ofText t).requestFor table
      (((ofText t).tableRule?.map TableRule.table).getD defaultTable)
      .select).limit = some n := limit?_of_rowCount h _
  rw [readQuestion, Question.read]
  simp only [htable, hintent, hlimit, Option.isSome_some, Bool.or_true, Bool.not_true,
    Bool.and_false, Bool.false_eq_true, if_false]

end Limit

/-- **Limits that no keyword asks for.** The limit of a question that mentions no word for a number
of rows is a usual one, or the number behind the first such word that is hidden in a longer one; and
such a number is the limit of a question for rows of a table of the schema. -/
theorem limit_usual_or_hidden {s : Schema} {t : Text} (h : CountsByWord t)
    (htop : (ofText t).mentions "top" = false) (hfirst : (ofText t).mentions "first" = false) :
    (UsualLimit (ofText t) (readQuestion t s) ∨
      ∃ u g n, FirstCount t.trim u g n ∧ (readQuestion t s).request.limit = some n) ∧
    ∀ u g n, FirstCount t.trim u g n → IsHidden u g ∧
      ((ofText t).intent = .select →
        (s.table? (((ofText t).tableRule?.map TableRule.table).getD defaultTable)).isSome = true →
        (readQuestion t s).request.limit = some n) := by
  have htrim : CountsByWord t.trim := by
    obtain ⟨a, e, ht, -⟩ := exists_trim t
    refine h.mono ⟨a, e, ?_⟩
    rw [List.append_assoc, ← ht]
  constructor
  · refine (usualLimit_or_of_rowCount s t).imp_right ?_
    rintro ⟨n, hn, hlimit⟩
    obtain ⟨u, g, hcount⟩ := htrim.rowCountIn?_iff.1 hn
    exact ⟨u, g, n, hcount, hlimit⟩
  · intro u g n hcount
    exact ⟨hcount.isHidden htop hfirst, limit_of_rowCount (htrim.rowCountIn?_iff.2 ⟨u, g, hcount⟩)⟩

/-- A question with a word and a number in it, neither of which asks for rows. -/
def laptopQuestion : Text := "salary of laptop 2 users"

theorem countsByWord_laptopQuestion : CountsByWord laptopQuestion :=
  ⟨by decide, by decide, by decide⟩

theorem limit_usual_or_hidden_laptop :
    (CountsByWord laptopQuestion ∧ (ofText laptopQuestion).mentions "top" = false ∧
      (ofText laptopQuestion).mentions "first" = false) ∧
    ∃ u g, FirstCount laptopQuestion.trim u g 2 ∧ IsHidden u g ∧
      (readQuestion laptopQuestion .humanResources).request.limit = some 2 := by
  have htop : (ofText laptopQuestion).mentions "top" = false := by decide +kernel
  have hfirst : (ofText laptopQuestion).mentions "first" = false := by decide +kernel
  have htrim : CountsByWord laptopQuestion.trim := ⟨by decide, by decide, by decide⟩
  have hcount : rowCountIn? laptopQuestion.trim = some 2 := by decide +kernel
  obtain ⟨u, g, hplace⟩ := htrim.rowCountIn?_iff.1 hcount
  obtain ⟨hhidden, hlimit⟩ :=
    (limit_usual_or_hidden (s := .humanResources) countsByWord_laptopQuestion htop hfirst).2 u g 2
    hplace
  exact ⟨⟨countsByWord_laptopQuestion, htop, hfirst⟩, u, g, hplace, hhidden,
    hlimit (by decide +kernel) (by decide +kernel)⟩

/-- The limit of a question that mentions no number of rows can be a number of the question. -/
theorem not_usualLimit : ¬ ∀ (s : Schema) (t : Text), CountsByWord t →
    (ofText t).mentions "top" = false → (ofText t).mentions "first" = false →
    UsualLimit (ofText t) (readQuestion t s) := by
  intro h
  have hlimit : (readQuestion laptopQuestion .humanResources).request.limit = some 2 := by
    decide +kernel
  have husual := h .humanResources laptopQuestion countsByWord_laptopQuestion (by decide +kernel)
    (by decide +kernel)
  simp [UsualLimit, hlimit] at husual

end SqlScribe
