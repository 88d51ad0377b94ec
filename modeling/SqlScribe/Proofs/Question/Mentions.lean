import SqlScribe.Proofs.Pattern.Walk
import SqlScribe.Proofs.Question.Modest
import SqlScribe.Proofs.Text.Folding

/-!
# What a question mentions

Where the keywords of a question stand. The places of an ASCII keyword that are looked at do not
overlap; all the same nothing is missed, unless the keyword could begin anew behind a separator of
its own. Main statements:

* `standsIn_iff`: a keyword stands on its own somewhere in the text;
* `Question.infix_of_mentions`: what is mentioned stands in the question in lower case;
* `Question.mentionsAny_of_syllables`: the keywords that a text of syllables and blanks mentions.
-/

namespace SqlScribe

namespace Question

open Pattern Text

variable {b : Option Char} {k t u r : Text}

/-! ## Where a keyword stands on its own -/

/-- The keyword does not begin anew behind a character of its own that belongs to no word. -/
def NoRestart (k : Text) : Prop :=
  ∀ a c s, k = a ++ c :: s → s ≠ [] → isWordPart c = false → ¬ s <+: k

/-- A keyword that is one word does not begin anew. -/
theorem noRestart_of_word (h : ∀ c ∈ k, isWordPart c = true) : NoRestart k := by
  intro a c s hk _ hc
  have hmem : c ∈ k := by
    rw [hk]
    simp
  exact absurd (hc.symm.trans (h c hmem)) Bool.false_ne_true

theorem standsIn_skip (k : Text) (b : Option Char) (u r : Text) :
    standsIn k b u.length (u ++ r) = standsIn k (u.getLast?.or b) 0 r := by
  induction u generalizing b with
  | nil => rfl
  | cons c u ih => rw [List.length_cons, List.cons_append, standsIn, ih, Text.getLast?_cons_or]

/-- The search goes on behind the keyword. -/
theorem standsIn_append (hk : k ≠ []) (b : Option Char) (r : Text) :
    standsIn k b 0 (k ++ r) = (separates b r.head? || standsIn k (k.getLast?.or b) 0 r) := by
  obtain ⟨c, w, rfl⟩ := List.exists_cons_of_ne_nil hk
  have hprefix : (c :: w).isPrefixOf (c :: (w ++ r)) = true :=
    List.isPrefixOf_iff_prefix.2 (List.prefix_append (c :: w) r)
  have hdrop : ((c :: w) ++ r).drop (c :: w).length = r := List.drop_left
  rw [List.cons_append] at hdrop
  rw [List.cons_append, standsIn, if_pos hprefix, hdrop, List.length_cons, Nat.add_sub_cancel,
    standsIn_skip, Text.getLast?_cons_or]

theorem standsIn_cons {c : Char} (h : ¬ k <+: c :: t) (b : Option Char) :
    standsIn k b 0 (c :: t) = standsIn k (some c) 0 t := by
  rw [standsIn, if_neg fun hprefix => h (List.isPrefixOf_iff_prefix.1 hprefix)]

theorem exists_of_standsIn (hk : k ≠ []) (h : standsIn k b 0 t = true) :
    ∃ x y, t = x ++ (k ++ y) ∧ separates (x.getLast?.or b) y.head? = true := by
  induction hn : t.length using Nat.strong_induction_on generalizing b t with
  | _ n ih =>
    cases t with
    | nil =>
      rw [standsIn, List.isEmpty_eq_false_iff.2 hk, Bool.and_false, Bool.false_and] at h
      exact absurd h Bool.false_ne_true
    | cons c t =>
      by_cases hprefix : k <+: c :: t
      · obtain ⟨r, hr⟩ := hprefix
        rw [← hr, standsIn_append hk, Bool.or_eq_true] at h
        rcases h with h | h
        · exact ⟨[], r, hr.symm, h⟩
        · have hshorter : r.length < n := by
            have hpos := List.length_pos_iff.2 hk
            rw [← hn, ← hr, List.length_append]
            omega
          obtain ⟨x, y, rfl, hsep⟩ := ih r.length hshorter h rfl
          refine ⟨k ++ x, y, by rw [← hr, List.append_assoc], ?_⟩
          rwa [List.getLast?_append, Option.or_assoc]
      · rw [standsIn_cons hprefix] at h
        obtain ⟨x, y, rfl, hsep⟩ := ih t.length (by rw [← hn, List.length_cons]; omega) h rfl
        exact ⟨c :: x, y, rfl, by rwa [Text.getLast?_cons_or]⟩

theorem standsIn_of_exists (hk : k ≠ []) (hrestart : NoRestart k) {x y : Text}
    (hsep : separates (x.getLast?.or b) y.head? = true) :
    standsIn k b 0 (x ++ (k ++ y)) = true := by
  induction hn : x.length using Nat.strong_induction_on generalizing b x with
  | _ n ih =>
    cases x with
    | nil =>
      rw [List.nil_append, standsIn_append hk, Bool.or_eq_true]
      exact Or.inl hsep
    | cons c x =>
      by_cases hpast : k <+: c :: x
      · -- the place lies behind the one that is looked at
        obtain ⟨a, ha⟩ := hpast
        have hshorter : a.length < n := by
          have hpos := List.length_pos_iff.2 hk
          rw [← hn, ← ha, List.length_append]
          omega
        rw [← ha, List.getLast?_append, Option.or_assoc] at hsep
        rw [← ha, List.append_assoc, standsIn_append hk, ih a.length hshorter hsep rfl,
          Bool.or_true]
      · have hprefix : ¬ k <+: c :: (x ++ (k ++ y)) := by
          -- the place would begin within the one that is looked at, behind a separator
          rintro ⟨r, hr⟩
          have hover : k ++ r = (c :: x) ++ (k ++ y) := hr
          rcases List.append_eq_append_iff.1 hover with ⟨a, ha, -⟩ | ⟨a, ha, hrest⟩
          · exact hpast ⟨a, ha.symm⟩
          · have hne : a ≠ [] := by
              rintro rfl
              exact hpast ⟨[], by rw [ha, List.append_nil, List.append_nil]⟩
            obtain ⟨v, d, hd⟩ := (List.eq_nil_or_concat (c :: x)).resolve_left
              (List.cons_ne_nil c x)
            rw [List.concat_eq_append] at hd
            have hword : isWordPart d = false := by
              rw [hd, List.getLast?_concat, separates, Bool.and_eq_true] at hsep
              simpa using hsep.1
            refine hrestart v d a (by rw [ha, hd]; simp) hne hword ?_
            refine List.prefix_of_prefix_length_le ⟨r, hrest.symm⟩ ⟨y, rfl⟩ ?_
            rw [ha, List.length_append]
            omega
        rw [Text.getLast?_cons_or] at hsep
        exact (standsIn_cons hprefix b).trans
          (ih x.length (by rw [← hn, List.length_cons]; omega) hsep rfl)

/-- A keyword stands on its own where it is found with separators around it. -/
theorem standsIn_iff (hk : k ≠ []) (hrestart : NoRestart k) : standsIn k b 0 t = true ↔
    ∃ x y, t = x ++ (k ++ y) ∧ separates (x.getLast?.or b) y.head? = true := by
  refine ⟨exists_of_standsIn hk, ?_⟩
  rintro ⟨x, y, rfl, hsep⟩
  exact standsIn_of_exists hk hrestart hsep

/-! ## Keywords in a question -/

variable {q : Question} {ks : List Text}

theorem mentions_iff_of_not_isAscii (hk : k.isAscii = false) :
    q.mentions k = true ↔ k <:+: q.folded := by
  rw [mentions, if_neg (by simp [hk]), occursIn_iff]

/-- What is mentioned stands in the question in lower case. -/
theorem infix_of_mentions (hk : k ≠ []) (h : q.mentions k = true) : k <:+: q.folded := by
  cases hascii : k.isAscii with
  | false => exact (mentions_iff_of_not_isAscii hascii).1 h
  | true =>
    rw [mentions, if_pos hascii] at h
    obtain ⟨x, y, hxy, -⟩ := exists_of_standsIn hk h
    exact ⟨x, y, by rw [hxy, List.append_assoc]⟩

/-! ## Words in any case -/

/-- The character ends in an ASCII letter, a digit or a low line when it is written in lower
case. -/
def goesOnWord (c : Char) : Bool := (lowerOf c).getLast?.any isWordPart

/-- In a text in lower case a word part stands in front of a place only where the text itself has
one, in any case. -/
theorem exists_lowerAfter_append (u r : Text) :
    ∃ x, lowercase (u ++ r) = x ++ lowerAfter u.reverse r ∧
      (u.getLast?.any goesOnWord = false → x.getLast?.any isWordPart = false) := by
  rcases List.eq_nil_or_concat u with rfl | ⟨v, c, rfl⟩
  · exact ⟨[], rfl, fun _ => rfl⟩
  · obtain ⟨x, hx⟩ := lowerAfter_append [] v (c :: r)
    rw [List.concat_eq_append, List.append_assoc, List.singleton_append, lowercase, hx, lowerAfter,
      ← List.append_assoc, List.append_nil, List.reverse_append]
    refine ⟨_, rfl, fun hc => ?_⟩
    rw [List.getLast?_concat, Option.any_some, goesOnWord] at hc
    split
    · -- a small sigma is no part of an ASCII word
      rw [List.getLast?_concat]
      split <;> decide
    · rwa [List.getLast?_append_of_ne_nil _ (lowerOf_ne_nil c)]

theorem lowerOf_of_simpleFold {c d : Char} (hd : d.isLower = true) (hfold : simpleFold c = d)
    (hlong : c ≠ 'ſ') (hkelvin : c ≠ '\u212a') : lowerOf c = [d] := by
  rw [simpleFold, if_neg (by simpa using hlong), if_neg (by simpa using hkelvin)] at hfold
  have hcode := (isLower_iff.1 hd).2
  rw [lowerOf_of_ascii (toNat_lt_of_toLower hfold (by omega)), hfold]

theorem simpleFold_of_isLower {c : Char} (h : c.isLower = true) : simpleFold c = c := by
  have hupper : c.isUpper = false := by
    refine Bool.eq_false_iff.2 fun hupper => ?_
    have hle := (isUpper_iff.1 hupper).2
    have hge := (isLower_iff.1 h).1
    omega
  rw [simpleFold_of_class (p := Char.isLower) (by decide) (by decide) h,
    toLower_of_not_isUpper hupper]

/-- The forms of a word of small letters, without the long s and the Kelvin sign, are that word in
lower case. -/
theorem flatMap_lowerOf_of_sameLetters {g : Text} (hg : SameLetters g k)
    (hk : ∀ c ∈ k, c.isLower = true) (hlong : 'ſ' ∉ g) (hkelvin : '\u212a' ∉ g) :
    g.flatMap lowerOf = k := by
  induction g generalizing k with
  | nil => exact (List.map_eq_nil_iff.1 hg.symm).symm
  | cons c g ih =>
    obtain ⟨d, w, rfl, hd, hw⟩ := List.map_eq_cons_iff.1 hg.symm
    obtain ⟨hlower, hk⟩ := List.forall_mem_cons.1 hk
    simp only [List.mem_cons, not_or] at hlong hkelvin
    rw [simpleFold_of_isLower hlower] at hd
    rw [List.flatMap_cons,
      lowerOf_of_simpleFold hlower hd.symm (Ne.symm hlong.1) (Ne.symm hkelvin.1),
      ih hw.symm hk hlong.2 hkelvin.2, List.singleton_append]

/-- Blanks and digits do not go on with a word as letters. -/
theorem any_isLetterPart_lowerAfter {before : Text}
    (hr : ∀ c, r.head? = some c → isBlank c = true ∨ c.isDigit = true) :
    (lowerAfter before r).head?.any isLetterPart = false := by
  cases r with
  | nil => rfl
  | cons c r =>
    have hstays : lowerOf c = [c] ∧ c.isAlpha = false := by
      rcases hr c rfl with hc | hc
      · refine ⟨lowerOf_of_isBlank hc, Bool.eq_false_iff.2 fun halpha => ?_⟩
        exact Bool.false_ne_true ((isBlank_of_isAlpha halpha).symm.trans hc)
      · have halpha := isAlpha_of_isDecimal (isDecimal_of_isDigit hc)
        have hupper : c.isUpper = false := Bool.eq_false_iff.2 fun hupper =>
          Bool.false_ne_true (halpha.symm.trans (isAlpha_iff.2 (Or.inl hupper)))
        have hcode := (isDigit_iff.1 hc).2
        exact ⟨by rw [lowerOf_of_ascii (by omega), toLower_of_not_isUpper hupper], halpha⟩
    have hother : ∀ d : Char, isBlank d = false → d.isDigit = false → c ≠ d := by
      rintro d hblank hdigit rfl
      rcases hr c rfl with hc | hc
      · exact Bool.false_ne_true (hblank.symm.trans hc)
      · exact Bool.false_ne_true (hdigit.symm.trans hc)
    have hsigma : c ≠ 'Σ' := hother 'Σ' (by decide) (by decide)
    have hline : c ≠ '_' := hother '_' (by decide) (by decide)
    rw [lowerAfter, if_neg (by simpa using hsigma), hstays.1]
    simp [isLetterPart, hstays.2, hline]

/-- A word of small letters is mentioned where it stands in any case, but for the long s and the
Kelvin sign, with no word in front of it and a blank or a digit behind it. -/
theorem mentions_of_sameLetters {u g : Text} (ht : t.trim = u ++ (g ++ r)) (hg : SameLetters g k)
    (hne : k ≠ []) (hk : ∀ c ∈ k, c.isLower = true) (hlong : 'ſ' ∉ g) (hkelvin : '\u212a' ∉ g)
    (hu : u.getLast?.any goesOnWord = false)
    (hr : ∀ c, r.head? = some c → isBlank c = true ∨ c.isDigit = true) :
    (ofText t).mentions k = true := by
  have hword : ∀ c ∈ k, isWordPart c = true := fun c hc => by
    simp [isWordPart, Char.isAlphanum, isAlpha_iff.2 (Or.inr (hk c hc))]
  have hascii : k.isAscii = true := by
    refine List.all_eq_true.2 fun c hc => decide_eq_true ?_
    have hle := (isLower_iff.1 (hk c hc)).2
    omega
  have hsigma : 'Σ' ∉ g := fun hmem => by
    have hfold : simpleFold 'Σ' ∈ k.map simpleFold := hg ▸ List.mem_map_of_mem hmem
    obtain ⟨c, hc, heq⟩ := List.mem_map.1 hfold
    rw [simpleFold_of_isLower (hk c hc)] at heq
    exact absurd (heq ▸ hk c hc) (by decide)
  obtain ⟨x, hx, hbefore⟩ := exists_lowerAfter_append u (g ++ r)
  rw [lowerAfter_append_of_no_sigma r hsigma,
    flatMap_lowerOf_of_sameLetters hg hk hlong hkelvin] at hx
  have hfolded : (ofText t).folded = x ++ (k ++ lowerAfter (g.reverse ++ u.reverse) r) := by
    rw [ofText, ht, hx]
  rw [mentions, if_pos hascii, hfolded]
  refine standsIn_of_exists hne (noRestart_of_word hword) ?_
  rw [separates, Option.or_none, hbefore hu, any_isLetterPart_lowerAfter hr]
  rfl

/-! ## Texts of syllables -/

/-- The text is made of Hangul syllables and blanks. -/
def InSyllables (t : Text) : Prop := ∀ c ∈ t, CharClass.hangul.has c = true ∨ isBlank c = true

/-- One of the keywords that are not ASCII stands in the text. -/
def heardIn (ks : List Text) (t : Text) : Bool := ks.any fun k => !k.isAscii && occursIn k t

theorem lowercase_of_inSyllables (h : InSyllables t) : lowercase t = t := by
  have hone : ∀ c ∈ t, lowerOf c = [c] := fun c hc =>
    (h c hc).elim lowerOf_of_hangul lowerOf_of_isBlank
  have hsigma : 'Σ' ∉ t := fun hmem => by
    rcases h _ hmem with hc | hc <;> exact absurd hc (by decide)
  have hfolded : lowerAfter [] (t ++ []) = t.flatMap lowerOf ++ lowerAfter (t.reverse ++ []) [] :=
    lowerAfter_append_of_no_sigma [] hsigma
  rw [List.append_nil] at hfolded
  rw [lowercase, hfolded, lowerAfter, List.append_nil, List.flatMap_congr hone,
    List.flatMap_singleton']

theorem ofText_of_inSyllables (h : InSyllables t) (htrim : t.trim = t) : ofText t = ⟨t, t⟩ := by
  rw [ofText, htrim, lowercase_of_inSyllables h]

/-- An ASCII keyword does not stand in such a text. -/
theorem InSyllables.isAscii_eq_false (h : InSyllables t) (hk : k.isAllBlank = false)
    (hin : k <:+: t) :
    k.isAscii = false := by
  refine Bool.eq_false_iff.2 fun hascii => ?_
  obtain ⟨c, hc, hblank⟩ := List.all_eq_false.1 hk
  have hcode : c.toNat < 128 := by simpa using List.all_eq_true.1 hascii c hc
  rcases h c (hin.subset hc) with hhangul | hc
  · have hfirst := (hangul_span hhangul).1
    omega
  · exact hblank hc

theorem mentions_of_inSyllables (h : InSyllables t) (htrim : t.trim = t)
    (hk : k.isAllBlank = false) :
    (ofText t).mentions k = (!k.isAscii && occursIn k t) := by
  cases hascii : k.isAscii with
  | false =>
    rw [mentions, hascii, ofText_of_inSyllables h htrim]
    rfl
  | true =>
    refine Bool.eq_false_iff.2 fun hmentions => ?_
    have hne : k ≠ [] := by
      rintro rfl
      exact absurd hk (by decide)
    have hin := infix_of_mentions hne hmentions
    rw [ofText_of_inSyllables h htrim] at hin
    exact Bool.false_ne_true ((h.isAscii_eq_false hk hin).symm.trans hascii)

/-- Of a text of syllables and blanks no ASCII keyword is mentioned, and the others where they
stand. -/
theorem mentionsAny_of_inSyllables (h : InSyllables t) (htrim : t.trim = t)
    (hks : ∀ k ∈ ks, k.isAllBlank = false) : (ofText t).mentionsAny ks = heardIn ks t := by
  rw [Bool.eq_iff_iff, mentionsAny, heardIn, List.any_eq_true, List.any_eq_true]
  refine exists_congr fun k => and_congr_right fun hk => ?_
  rw [mentions_of_inSyllables h htrim (hks k hk)]

theorem heardIn_iff : heardIn ks t = true ↔ ∃ k ∈ ks, k.isAscii = false ∧ k <:+: t := by
  simp only [heardIn, List.any_eq_true, Bool.and_eq_true, Bool.not_eq_true', occursIn_iff]

/-- A character that is in no keyword separates what is heard. -/
theorem heardIn_append_cons {c : Char} (hc : ∀ k ∈ ks, c ∉ k) (u r : Text) :
    heardIn ks (u ++ c :: r) = (heardIn ks u || heardIn ks r) := by
  rw [Bool.eq_iff_iff, Bool.or_eq_true, heardIn_iff, heardIn_iff, heardIn_iff]
  constructor
  · rintro ⟨k, hk, hascii, hin⟩
    exact (infix_append_cons (hc k hk) hin).imp (fun hin => ⟨k, hk, hascii, hin⟩)
      fun hin => ⟨k, hk, hascii, hin⟩
  · rintro (⟨k, hk, hascii, hin⟩ | ⟨k, hk, hascii, hin⟩)
    · exact ⟨k, hk, hascii, (infix_append_cons_iff (hc k hk)).2 (Or.inl hin)⟩
    · exact ⟨k, hk, hascii, (infix_append_cons_iff (hc k hk)).2 (Or.inr hin)⟩

end Question

end SqlScribe
