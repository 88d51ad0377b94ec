import SqlScribe.Proofs.Pattern.Choice
import SqlScribe.Proofs.Pattern.Heads
import SqlScribe.Proofs.Question.Modest

/-!
# Names with a particle

A name with a particle in front of what is asked about the person is found whole. The longest run of
syllables that the pattern would take reaches into the particle, but then no particle is left in
front of the blanks; and the two surer patterns ask for quotation marks and for a title. Main
statements:

* `findAll_titled_eq_nil`: there is no title in such a question;
* `matchAt?_asked`: the syllables in front of the particle are captured, no fewer and no more;
* `personNameIn?_asked`: the name is the one that is found.
-/

namespace SqlScribe

open Pattern

/-! ## Names -/

/-- A word that is taken for a name where a name may stand, and has no title in it. -/
structure PlainName (n : Text) : Prop where
  syllables : ∀ c ∈ n, CharClass.hangul.has c = true
  two_le : 2 ≤ n.length
  le_four : n.length ≤ 4
  isName : isNoName n = false
  untitled : '님' ∉ n

/-- The particles between a name and what is asked about the person. -/
def askedParticles : List Text := ["의", "이", "가", "을", "를", "에게", "한테"]

/-- What is asked about a person. -/
def askedNouns : List Text := ["급여", "정보", "연봉", "월급", "데이터", "부서", "입사일"]

/-- The titles of persons. -/
def titles : List Text := ["직원", "사원", "님"]

/-- The marks around a name in quotes. -/
def nameQuotes : List Char := ['\'', '"']

theorem isBlank_of_hangul {c : Char} (h : CharClass.hangul.has c = true) : isBlank c = false := by
  obtain ⟨hfirst, hlast⟩ := hangul_span h
  refine Bool.eq_false_iff.2 fun hblank => ?_
  simp only [isBlank, Bool.or_eq_true, Bool.and_eq_true, decide_eq_true_eq, beq_iff_eq] at hblank
  omega

theorem singular_of_getLast? {t : Text} (h : t.getLast? ≠ some '들') : singular t = t := by
  rw [singular, if_neg]
  intro hends
  rw [Text.endsWith, List.isPrefixOf_iff_prefix] at hends
  obtain ⟨r, hr⟩ := hends
  refine h ?_
  rw [← List.head?_reverse, ← hr]
  rfl

/-- A word that ends as the nouns for roles do is no name. -/
theorem isNoName_of_getLast? {t : Text} {c : Char} (h : t.getLast? = some c)
    (hc : c ∈ roleEndings) :
    isNoName t = true := by
  have hplural : ∀ c ∈ roleEndings, c ≠ '들' := by decide
  have hsingular : singular t = t := by
    refine singular_of_getLast? fun hlast => hplural c hc ?_
    exact Option.some.inj (h.symm.trans hlast)
  have hrole : t.getLast?.any roleEndings.contains = true := by
    rw [h]
    exact List.contains_iff_mem.2 hc
  simp [isNoName, hsingular, hrole]

namespace PlainName

variable {n p w noun r s t : Text} {c : Char}

/-! ## No title -/

/-- Behind two syllables no title fits into a name with a particle. -/
theorem no_title (hn : PlainName n) (hp : p ∈ askedParticles) {a b title : Text}
    (htitle : title ∈ titles) (ha : 2 ≤ a.length) : n ++ p ≠ a ++ title ++ b := by
  have hparticle : ∀ p ∈ askedParticles, '님' ∉ p ∧ '원' ∉ p := by decide
  have hends : ∀ title ∈ titles, '님' ∈ title ∨ (title.length = 2 ∧ title.getLast? = some '원') := by
    decide
  intro heq
  rcases hends title htitle with hmem | ⟨hlength, hlast⟩
  · have hin : '님' ∈ n ++ p := by
      rw [heq]
      simp [hmem]
    rcases List.mem_append.1 hin with hin | hin
    · exact hn.untitled hin
    · exact (hparticle p hp).1 hin
  · -- the last syllable of the title is in the name, and so the last one of the name
    have hne : title ≠ [] := by
      rintro rfl
      exact absurd hlength (by decide)
    have hname : n = a ++ title := by
      have hle := hn.le_four
      rcases List.append_eq_append_iff.1 heq with ⟨x, hx, hpx⟩ | ⟨x, hx, -⟩
      · by_cases hnil : x = []
        · rw [hx, hnil, List.append_nil]
        · have hlastx : x.getLast? = some '원' := by
            rw [← hlast, ← List.getLast?_append_of_ne_nil a hne, hx,
              List.getLast?_append_of_ne_nil _ hnil]
          have hmem : '원' ∈ p := hpx ▸ List.mem_append_left b (List.mem_of_getLast? hlastx)
          exact absurd hmem (hparticle p hp).2
      · have hcount := congrArg List.length hx
        simp only [List.length_append] at hcount
        have hnil : x = [] := List.length_eq_zero_iff.1 (by omega)
        rw [hx, hnil, List.append_nil]
    have hrole : isNoName n = true :=
      isNoName_of_getLast? (by rw [hname, List.getLast?_append_of_ne_nil a hne, hlast]) (by decide)
    exact Bool.false_ne_true (hn.isName.symm.trans hrole)

/-- There is no name with a title in a question that begins with a name and a particle, if there is
no title behind them. -/
theorem findAll_titled_eq_nil (hn : PlainName n) (hp : p ∈ askedParticles) (hc : isBlank c = true)
    (hs : ∀ title ∈ titles, ¬ title <:+: s) :
    NamePattern.titled.findAll (n ++ p ++ c :: s) = [] := by
  have hblank : ∀ title ∈ titles, ∀ c ∈ title, isBlank c = false := by decide
  refine List.eq_nil_iff_forall_not_mem.2 fun m hm => ?_
  obtain ⟨v, x, ht, hof⟩ := isOf_of_mem_findAll hm
  obtain ⟨_, part, htext, ⟨_, title, rfl, ⟨_, e, rfl, ⟨f, name, rfl, -, hname⟩, -⟩, htitle⟩, -⟩ :=
    hof.spells
  obtain ⟨a, u, rfl, ha, -⟩ := hname
  obtain ⟨htwo, -⟩ := of_spells_times ha
  have hmem : title ∈ titles := by
    obtain ⟨q, hq, hspells⟩ := exists_of_spells_oneOf htitle
    obtain ⟨w, hw, rfl⟩ := List.mem_map.1 hq
    exact spells_literal.1 hspells ▸ hw
  have hfree : c ∉ title := fun hin =>
    Bool.false_ne_true ((hblank title hmem c hin).symm.trans hc)
  have heq : (n ++ p) ++ c :: s = (v ++ (f ++ (a ++ u) ++ e)) ++ title ++ (part ++ m.after) := by
    rw [ht, ← hof.text_append, htext]
    simp only [List.append_assoc]
  rcases List.append_eq_append_iff.1 heq with ⟨y, hy, hrest⟩ | ⟨y, hy, -⟩
  · -- the title reaches over the particle, and has no room for the blank behind it
    cases y with
    | nil =>
      refine hn.no_title hp hmem (a := v ++ (f ++ (a ++ u) ++ e)) (b := []) ?_
        (by simpa using hy.symm)
      simp only [List.length_append]
      omega
    | cons d y =>
      obtain ⟨rfl, rfl⟩ := List.cons.inj hrest
      have hlong : c :: y <:+ (v ++ (f ++ (a ++ u) ++ e)) ++ title := ⟨n ++ p, hy.symm⟩
      rcases List.suffix_or_suffix_of_suffix hlong (List.suffix_append _ title) with hin | hin
      · exact hfree (hin.subset List.mem_cons_self)
      · rcases List.suffix_cons_iff.1 hin with rfl | hin
        · exact hfree List.mem_cons_self
        · exact hs title hmem (hin.isInfix.trans ⟨[], _, rfl⟩)
  · refine hn.no_title hp hmem ?_ hy
    simp only [List.length_append]
    omega

/-! ## The name in front of the particle -/

/-- Only the syllables of the name are followed by a particle. -/
theorem first_name (hn : PlainName n) (hp : p ∈ askedParticles) (hc : isBlank c = true)
    {b : Option Char} {K : Continuation} {d : Cursor}
    (hK : K ⟨p.getLast?.or (n.getLast?.or b), c :: s, [⟨1, n ++ (p ++ c :: s), p ++ c :: s⟩]⟩ =
      some d) :
    first NamePattern.name ⟨b, n ++ (p ++ c :: s), []⟩
      (fun d => first (NamePattern.oneWord askedParticles) d K) = some d := by
  have hwords : ∀ p ∈ askedParticles, p ≠ [] := by decide
  have hheads : ∀ p ∈ askedParticles, ∀ q ∈ askedParticles, q.head? = p.head? → q = p := by decide
  have hblank : ∀ q ∈ askedParticles, q.head?.any isBlank = false := by decide
  have htails : ∀ p ∈ askedParticles, ∀ x ∈ p.tail, ∀ q ∈ askedParticles, q.head? ≠ some x := by
    decide
  obtain ⟨a, u, rfl, ha, hu⟩ : ∃ a u, n = a ++ u ∧ a.length = 2 ∧ u.length ≤ 2 := by
    refine ⟨n.take 2, n.drop 2, (List.take_append_drop 2 n).symm,
      List.length_take_of_le hn.two_le, ?_⟩
    have hle := hn.le_four
    rw [List.length_drop]
    omega
  obtain ⟨hhangul, hhangul'⟩ := List.forall_mem_append.1 hn.syllables
  rw [List.append_assoc] at hK ⊢
  rw [NamePattern.name, first_group, first_append, first_times ha hhangul]
  refine first_upTo_longest hu hhangul' (fun v t ht hne _ hall => ?_) ?_
  · -- what is left in front of the blanks is the end of a particle at most
    have hstop : ∀ q ∈ askedParticles, q.head? ≠ some c := fun q hq hhead => by
      have hfalse := hblank q hq
      rw [hhead] at hfalse
      exact Bool.false_ne_true (hfalse.symm.trans hc)
    refine first_oneOf_literal_eq_none hwords fun q hq hhead => ?_
    rcases List.append_eq_append_iff.1 ht with ⟨x, rfl, hrest⟩ | ⟨x, rfl, rfl⟩
    · cases x with
      | nil =>
        obtain rfl : c :: s = t := hrest
        exact hstop q hq hhead
      | cons y x =>
        obtain ⟨rfl, -⟩ := List.cons.inj hrest
        have hsyllable := hall c (List.mem_append_right p List.mem_cons_self)
        exact Bool.false_ne_true ((isBlank_of_hangul hsyllable).symm.trans hc)
    · cases x with
      | nil => exact hstop q hq hhead
      | cons y x =>
        obtain ⟨z, v, rfl⟩ := List.exists_cons_of_ne_nil hne
        exact htails _ hp y (by simp) q hq hhead
  · rw [List.getLast?_append, Option.or_assoc] at hK
    exact first_oneOf_literal_of_head hwords hp (hheads p hp) hK

/-- **The syllables in front of the particle.** A question that begins with a name, a particle,
blanks and something that is asked about a person is matched there, and the name is captured. -/
theorem matchAt?_asked (hn : PlainName n) (hp : p ∈ askedParticles) (hw : w ≠ [])
    (hblank : ∀ c ∈ w, isBlank c = true) (hnoun : noun ∈ askedNouns) (r : Text) :
    NamePattern.asked.matchAt? none ((n ++ p ++ w ++ noun) ++ r) =
      some ⟨none, n ++ p ++ w ++ noun, [(1, n)], r⟩ := by
  have hwords : ∀ q ∈ askedNouns, q ≠ [] := by decide
  have hheads : ∀ q ∈ askedNouns, ∀ q' ∈ askedNouns, q'.head? = q.head? → q' = q := by decide
  have hstart : ∀ q ∈ askedNouns, q.head?.any isBlank = false := by decide
  have hnext : ∀ y, (noun ++ r).head? = some y → isBlank y = false := by
    intro y hy
    have hhead := hstart noun hnoun
    rw [List.head?_append_of_ne_nil noun (hwords noun hnoun)] at hy
    rwa [hy] at hhead
  obtain ⟨c, w, rfl⟩ := List.exists_cons_of_ne_nil hw
  have hrest : ∀ b cs,
      first (blanks ++ NamePattern.oneWord askedNouns) ⟨b, c :: (w ++ (noun ++ r)), cs⟩ some =
        some ⟨noun.getLast?.or ((c :: w).getLast?.or b), r, cs⟩ := by
    intro b cs
    rw [first_append, ← List.cons_append, first_blanks_append hblank hnext]
    exact first_oneOf_literal_of_head hwords hnoun (hheads noun hnoun) rfl
  have hfirst := hn.first_name hp (hblank c List.mem_cons_self) (b := none)
    (K := fun d => first (blanks ++ NamePattern.oneWord askedNouns) d some) (hrest _ _)
  have hsplit : n ++ (p ++ c :: (w ++ (noun ++ r))) = (n ++ p ++ c :: w ++ noun) ++ r := by
    simp only [List.append_assoc, List.cons_append]
  have hasked : first NamePattern.asked ⟨none, n ++ (p ++ c :: (w ++ (noun ++ r))), []⟩ some =
      some ⟨_, r, _⟩ := first_alt_of_some (first_textStart.trans hfirst)
  have hne : n ++ p ++ c :: w ++ noun ≠ [] := by simp
  rw [hsplit] at hasked
  rw [matchAt?_of_first hasked hne, List.map_singleton, ← hsplit, text_capture]

/-! ## The name that is found -/

/-- Without quotation marks behind it there are none in the whole question. -/
theorem findAll_quoted_eq_nil (hn : PlainName n) (hp : p ∈ askedParticles)
    (hblank : ∀ c ∈ w, isBlank c = true) (hnoun : noun ∈ askedNouns)
    (hr : ∀ c ∈ r, c ∉ nameQuotes) :
    NamePattern.quoted.findAll ((n ++ p ++ w ++ noun) ++ r) = [] := by
  have hwords : ∀ w ∈ askedParticles ++ askedNouns, ∀ c ∈ w, c ∉ nameQuotes := by decide
  have hquotes : ∀ c ∈ nameQuotes, CharClass.hangul.has c = false ∧ isBlank c = false := by decide
  have hname : ∀ c ∈ n, c ∉ nameQuotes := fun c hc hin =>
    Bool.false_ne_true ((hquotes c hin).1.symm.trans (hn.syllables c hc))
  have hgap : ∀ c ∈ w, c ∉ nameQuotes := fun c hc hin =>
    Bool.false_ne_true ((hquotes c hin).2.symm.trans (hblank c hc))
  refine findAll_eq_nil (f := (· == .among nameQuotes)) (by decide) fun c hc k hk => ?_
  rw [eq_of_beq hk, CharClass.has, List.contains_eq_mem, decide_eq_false_iff_not]
  simp only [List.mem_append] at hc
  rcases hc with (((hc | hc) | hc) | hc) | hc
  · exact hname c hc
  · exact hwords p (List.mem_append_left _ hp) c hc
  · exact hgap c hc
  · exact hwords noun (List.mem_append_right _ hnoun) c hc
  · exact hr c hc

/-- The name of a question that begins with a name, a particle and what is asked about the person,
if what comes then has no quotation marks and no title. -/
theorem personNameIn?_append (hn : PlainName n) (hp : p ∈ askedParticles) (hw : w ≠ [])
    (hblank : ∀ c ∈ w, isBlank c = true) (hnoun : noun ∈ askedNouns) (hr : ∀ c ∈ r, c ∉ nameQuotes)
    (htitle : ∀ title ∈ titles, ¬ title <:+: noun ++ r) :
    personNameIn? ((n ++ p ++ w ++ noun) ++ r) = some n := by
  have hquoted := hn.findAll_quoted_eq_nil hp hblank hnoun hr
  have htitled : NamePattern.titled.findAll ((n ++ p ++ w ++ noun) ++ r) = [] := by
    have hmarks : ∀ title ∈ titles, title ≠ [] ∧ ∀ c ∈ title, isBlank c = false := by decide
    obtain ⟨c, w, rfl⟩ := List.exists_cons_of_ne_nil hw
    have hsplit : (n ++ p ++ c :: w ++ noun) ++ r = n ++ p ++ c :: (w ++ (noun ++ r)) := by
      simp only [List.append_assoc, List.cons_append]
    rw [hsplit]
    refine hn.findAll_titled_eq_nil hp (hblank c List.mem_cons_self) fun title ht hin =>
      htitle title ht ?_
    have hdrop := Text.infix_dropWhile (hmarks title ht).1 (hmarks title ht).2 hin
    rw [List.dropWhile_append_of_pos fun c hc => hblank c (List.mem_cons_of_mem _ hc)] at hdrop
    exact hdrop.trans (List.dropWhile_suffix isBlank).isInfix
  have hasked := hn.matchAt?_asked hp hw hblank hnoun r
  obtain ⟨ms, hfind⟩ : ∃ ms, NamePattern.asked.findAll ((n ++ p ++ w ++ noun) ++ r) =
      ⟨none, n ++ p ++ w ++ noun, [(1, n)], r⟩ :: ms := by
    rw [findAll, pieces, piecesFrom_hit hasked rfl]
    exact ⟨_, rfl⟩
  have hgroup : Match.group ⟨none, n ++ p ++ w ++ noun, [(1, n)], r⟩ 1 = n := rfl
  rw [personNameIn?, NamePattern.all]
  simp only [List.findSome?_cons, hquoted, htitled, hfind, List.map_nil, List.find?_nil,
    List.map_cons, hgroup]
  rw [List.find?_cons_of_pos (by simp [hn.isName])]

/-- **The name in front of a particle is found whole.** -/
theorem personNameIn?_asked (hn : PlainName n) (hp : p ∈ askedParticles) (hw : w ≠ [])
    (hblank : ∀ c ∈ w, isBlank c = true) (hnoun : noun ∈ askedNouns) :
    personNameIn? (n ++ p ++ w ++ noun) = some n := by
  have huntitled : ∀ noun ∈ askedNouns, ∀ title ∈ titles, ¬ title <:+: noun ++ [] := by decide
  rw [← List.append_nil (n ++ p ++ w ++ noun)]
  exact hn.personNameIn?_append hp hw hblank hnoun (by simp) (huntitled noun hnoun)

/-- An ordinary name. -/
theorem plain_cheolsu : PlainName "김철수" :=
  ⟨by decide, by decide, by decide, by decide +kernel, by decide⟩

theorem personNameIn?_asked_cheolsu :
    (PlainName "김철수" ∧ "한테".toList ∈ askedParticles ∧ "\u3000 ".toList ≠ [] ∧
      (∀ c ∈ "\u3000 ".toList, isBlank c = true) ∧ "데이터".toList ∈ askedNouns) ∧
    personNameIn? "김철수한테\u3000 데이터" = some "김철수".toList := by
  have hp : "한테".toList ∈ askedParticles := by decide
  have hw : "\u3000 ".toList ≠ [] := by decide
  have hblank : ∀ c ∈ "\u3000 ".toList, isBlank c = true := by decide
  have hnoun : "데이터".toList ∈ askedNouns := by decide
  have htext : "김철수한테\u3000 데이터".toList = "김철수" ++ "한테" ++ "\u3000 " ++ "데이터" := by decide
  refine ⟨⟨plain_cheolsu, hp, hw, hblank, hnoun⟩, ?_⟩
  rw [htext]
  exact personNameIn?_asked plain_cheolsu hp hw hblank hnoun

end PlainName

end SqlScribe
