import SqlScribe.Proofs.Expression.Rewriting
import SqlScribe.Proofs.Pattern.WordOf
import SqlScribe.Proofs.Text.Squeeze

/-!
# Lines that hold nothing but a separator

The rule for separators takes a line out that holds nothing but the word `GO`, whatever blanks stand
around it, and leaves all other lines. Main statements:

* `mem_ways_goSeparator`: what the pattern of the rule takes, and where;
* `words_replaceFrom_goSeparator`: the words behind the rule are those of the other lines;
* `KeptApart.standing_append_space`: a space beside a blank changes none of the lines that stay.
-/

namespace SqlScribe

open Text Pattern

variable {b : Option Char} {c : Char} {d : Cursor} {l t u v : Text}

/-! ## Lines -/

/-- The one word of the text is the separator. -/
def IsSeparator (t : Text) : Prop := (words t).map (·.map simpleFold) = [['g', 'o']]

instance (t : Text) : Decidable (IsSeparator t) := inferInstanceAs (Decidable (_ = _))

/-- The words of a line that stays. -/
def standingLine (l : Text) : List Text := if IsSeparator l then [] else words l

theorem standingLine_congr {l' : Text} (h : words l = words l') :
    standingLine l = standingLine l' :=
  if_congr (by rw [IsSeparator, IsSeparator, h]) rfl h

/-- The words of the lines that stay. -/
def standing (t : Text) : List Text := (cut (· == '\n') t).flatMap standingLine

theorem standing_of_line (h : '\n' ∉ l) : standing l = standingLine l := by
  have hline : ∀ c ∈ l, (c == '\n') = false := fun c hc => beq_false_of_ne fun hn => h (hn ▸ hc)
  rw [standing, cut_eq_singleton hline, List.flatMap_singleton]

theorem standing_append_break (l t : Text) :
    standing (l ++ '\n' :: t) = standing l ++ standing t := by
  rw [standing, cut_append_cons (by rfl), List.flatMap_append]
  rfl

theorem standing_nil : standing [] = [] := rfl

theorem standing_cons_break (t : Text) : standing ('\n' :: t) = standing t :=
  standing_append_break [] t

/-- Lines are of the words of the whole text. -/
theorem words_eq_flatMap_lines (t : Text) : words t = (cut (· == '\n') t).flatMap words := by
  have hcut := cut_eq_flatMap_cut (p := isBlank) (q := (· == '\n'))
    (fun c hc => by rw [beq_iff_eq.1 hc]; decide) t
  rw [words, hcut, List.filter_flatMap]
  rfl

/-- A text whose one word is the separator has no line that stays, on however many lines it is. -/
theorem IsSeparator.standing_eq (h : IsSeparator t) : standing t = [] := by
  obtain ⟨w, hw, hfold⟩ := List.map_eq_singleton_iff.1 h
  rw [standing, List.flatMap_eq_nil_iff]
  intro l hl
  have hlines := words_eq_flatMap_lines t
  rw [hw] at hlines
  have hsub : (words l).Sublist [w] := hlines ▸ (List.infix_flatMap_of_mem hl words).sublist
  rcases List.sublist_singleton.1 hsub with hl | hl
  · rw [standingLine, hl, ite_self]
  · rw [standingLine, if_pos]
    rw [IsSeparator, hl, List.map_singleton, hfold]

/-! ## The rule -/

/-- The pattern of the rule for separators. -/
def goSeparator : Pattern :=
  anchor .lineStart ++ blanks ++ letters "GO" ++ many .blank ++ anchor .lineEnd

theorem spells_many {k : CharClass} : (many k).Spells u ↔ ∀ x ∈ u, k.has x = true := by
  constructor
  · rintro ⟨vs, rfl, hvs⟩ x hx
    obtain ⟨v, hv, hxv⟩ := List.mem_flatten.1 hx
    obtain ⟨y, rfl, hy⟩ := hvs v hv
    exact List.mem_singleton.1 hxv ▸ hy
  · intro h
    refine ⟨u.map fun x => [x], ?_, fun v hv => ?_⟩
    · rw [← List.flatMap_def, List.flatMap_singleton']
    · obtain ⟨x, hx, rfl⟩ := List.mem_map.1 hv
      exact ⟨x, rfl, h x hx⟩

theorem takesAll_many (k : CharClass) : TakesAll (many k) := by
  intro c d
  rw [many, (takesMany_star k).mem_ways]
  constructor
  · rintro ⟨u, r, hrest, hall, -, hd⟩
    exact ⟨u, r, hrest, spells_many.2 hall, hd⟩
  · rintro ⟨u, r, hrest, hu, hd⟩
    exact ⟨u, r, hrest, spells_many.1 hu, by simp, hd⟩

theorem isWord_of_sameLetters {g : Text} (h : SameLetters g "GO") : IsWord g := by
  refine ⟨h.ne_nil (by decide), fun c hc => ?_⟩
  by_contra hblank
  have hword := h.isWordChar (by decide) c hc
  rw [isWordChar_of_isBlank (by simpa using hblank)] at hword
  exact Bool.noConfusion hword

/-- Between the ends of its lines a separator is the word with blanks around it. -/
theorem spells_separator : (blanks ++ (letters "GO" ++ many .blank)).Spells u ↔ IsSeparator u := by
  constructor
  · rintro ⟨a, _, rfl, ha, g, e, rfl, hg, he⟩
    have hsame := spells_letters.1 hg
    have hwords := words_eq_singleton_iff.2
      ⟨a, e, rfl, ha, isWord_of_sameLetters hsame, spells_many.1 he⟩
    rw [IsSeparator, ← List.append_assoc, hwords]
    exact congrArg (fun w => [w]) hsame
  · intro h
    obtain ⟨g, hg, hfold⟩ := List.map_eq_singleton_iff.1 h
    obtain ⟨a, e, rfl, ha, -, he⟩ := words_eq_singleton_iff.1 hg
    exact ⟨a, g ++ e, List.append_assoc a g e, ha, g, e, rfl, spells_letters.2 hfold,
      spells_many.2 he⟩

theorem takesAll_separator : TakesAll (blanks ++ (letters "GO" ++ many .blank)) := by
  refine takesAll_run_seq ((takesAll_letters "GO").seq (takesAll_many .blank)) ?_
  rintro _ ⟨g, e, rfl, hg, -⟩
  obtain ⟨hne, hall⟩ := isWord_of_sameLetters (spells_letters.1 hg)
  obtain ⟨x, g, rfl⟩ := List.exists_cons_of_ne_nil hne
  exact ⟨x, rfl, hall x List.mem_cons_self⟩

/-- The pattern takes, from the start of a line to the end of one, a text whose one word is the
separator. -/
theorem mem_ways_goSeparator {c : Cursor} : d ∈ ways goSeparator c ↔
    Anchor.lineStart.holds c.before c.rest = true ∧ ∃ g s, c.rest = g ++ s ∧ IsSeparator g ∧
      (∀ x, s.head? = some x → x = '\n') ∧ d = along c g s := by
  have hend : ∀ e : Cursor, Anchor.lineEnd.holds e.before e.rest = true ↔
      ∀ x, e.rest.head? = some x → x = '\n' := by
    intro e
    cases he : e.rest <;> simp [Anchor.holds]
  rw [goSeparator, mem_ways_seq]
  simp only [mem_ways_assoc, mem_ways_seq (p := anchor .lineStart), mem_ways_anchor, hend]
  constructor
  · rintro ⟨e, ⟨f, ⟨hstart, rfl⟩, he⟩, hstop, rfl⟩
    obtain ⟨g, s, hrest, hg, rfl⟩ := (takesAll_separator f d).1 he
    exact ⟨hstart, g, s, hrest, spells_separator.1 hg, hstop, rfl⟩
  · rintro ⟨hstart, g, s, hrest, hg, hstop, rfl⟩
    exact ⟨_, ⟨c, ⟨hstart, rfl⟩, (takesAll_separator c _).2
      ⟨g, s, hrest, spells_separator.2 hg, rfl⟩⟩,
      hstop, rfl⟩

/-- A match begins at the start of a line and ends at the end of one. -/
theorem of_matchAt?_goSeparator {m : Match} (h : goSeparator.matchAt? b t = some m) :
    (b.isNone ∨ b = some '\n') ∧ IsSeparator m.text ∧ ∀ x, m.after.head? = some x → x = '\n' := by
  have hsplit := (matchAt?_text h).2
  rw [matchAt?_eq rfl] at h
  obtain ⟨d, hd, rfl⟩ := Option.map_eq_some_iff.1 h
  obtain ⟨hstart, g, s, rfl, hg, hstop, rfl⟩ := mem_ways_goSeparator.1 (List.mem_of_mem_head? hd)
  have htext : (matchOf b (g ++ s) (along ⟨b, g ++ s, []⟩ g s)).text = g := text_of_append rfl
  rw [htext] at hsplit ⊢
  rw [List.append_cancel_left hsplit]
  exact ⟨by simpa [Anchor.holds] using hstart, hg, hstop⟩

/-- A separator at the start of a line is found. -/
theorem matchAt?_goSeparator_ne_none (hb : b.isNone ∨ b = some '\n') (hl : IsSeparator l)
    (ht : ∀ x, t.head? = some x → x = '\n') : goSeparator.matchAt? b (l ++ t) ≠ none := by
  rw [Ne, matchAt?_eq_none_iff rfl]
  refine List.ne_nil_of_mem (mem_ways_goSeparator.2 ⟨?_, l, t, rfl, hl, ht, rfl⟩)
  simpa [Anchor.holds] using hb

/-- In a line nothing is found but at its start. -/
theorem quiet_goSeparator (h : goSeparator.matchAt? b (u ++ t) = none) (hu : '\n' ∉ u.dropLast) :
    Quiet goSeparator b u t := by
  rintro v w rfl hw
  rcases List.eq_nil_or_concat v with rfl | ⟨v, x, rfl⟩
  · exact h
  · rw [List.concat_eq_append, List.dropLast_append_of_ne_nil hw] at hu
    rw [Option.eq_none_iff_forall_ne_some]
    intro m hm
    have hx := (of_matchAt?_goSeparator hm).1
    simp only [List.concat_eq_append, List.getLast?_concat, Option.some_or, Option.isNone_some,
      Bool.false_eq_true, false_or, Option.some.injEq] at hx
    exact hu (by simp [hx])

/-- **The lines that stay.** Of a text at the start or the end of a line the rule leaves the words
of the lines that are no separators. -/
theorem words_replaceFrom_goSeparator
    (hb : (b.isNone ∨ b = some '\n') ∨ ∀ x, t.head? = some x → x = '\n') :
    words (replaceFrom goSeparator (fun _ => []) b t) = standing t := by
  induction hn : t.length using Nat.strong_induction_on generalizing b t with
  | _ n ih =>
    cases hm : goSeparator.matchAt? b t with
    | some m =>
      obtain ⟨hne, rfl⟩ := matchAt?_text hm
      obtain ⟨-, hsep, hafter⟩ := of_matchAt?_goSeparator hm
      have hshort : m.after.length < n := by
        rw [← hn, List.length_append]
        exact Nat.lt_add_of_pos_left (List.length_pos_iff.2 hne)
      rw [replaceFrom_hit hm rfl, List.nil_append, ih _ hshort (Or.inr hafter) rfl]
      cases ha : m.after with
      | nil => rw [List.append_nil, hsep.standing_eq, standing_nil]
      | cons x r =>
        obtain rfl := hafter x (by rw [ha]; rfl)
        rw [standing_append_break, hsep.standing_eq, standing_cons_break, List.nil_append]
    | none =>
      obtain ⟨l, r, rfl, hl, hr⟩ : ∃ l r, t = l ++ r ∧ '\n' ∉ l ∧
          ∀ x, r.head? = some x → x = '\n' := by
        refine ⟨t.takeWhile (· != '\n'), t.dropWhile (· != '\n'),
          by simp, fun h => ?_, fun x hx => ?_⟩
        · exact absurd (List.all_eq_true.1 List.all_takeWhile _ h) (by simp)
        · simpa using not_of_head?_dropWhile hx
      have hstays : ¬ IsSeparator l := by
        intro hsep
        rcases hb with hb | hb
        · exact matchAt?_goSeparator_ne_none hb hsep hr hm
        · have hne : l ≠ [] := by
            rintro rfl
            exact absurd hsep (by decide)
          obtain ⟨x, l, rfl⟩ := List.exists_cons_of_ne_nil hne
          exact hl (hb x rfl ▸ List.mem_cons_self)
      have hline : standing l = words l := by rw [standing_of_line hl, standingLine, if_neg hstays]
      cases r with
      | nil =>
        have hquiet : Quiet goSeparator b l [] :=
          quiet_goSeparator hm fun h => hl (List.mem_of_mem_dropLast h)
        rw [replaceFrom_quiet hquiet, replaceFrom_nil, List.append_nil, hline]
      | cons x r =>
        obtain rfl := hr x rfl
        have hquiet : Quiet goSeparator b (l ++ ['\n']) r :=
          quiet_goSeparator (by simpa using hm) (by simpa using hl)
        have hshort : r.length < n := by
          rw [← hn, List.length_append, List.length_cons]
          omega
        rw [List.append_cons, replaceFrom_quiet hquiet, List.append_assoc, List.singleton_append,
          words_append_cons (by decide), ih _ hshort (Or.inl (Or.inr (by simp))) rfl,
          ← List.append_cons, standing_append_break, hline]

/-! ## A space between two texts -/

/-- No word goes from one text into the next: the one ends in a blank or the other begins with one,
or there is nothing of it. -/
def KeptApart (a b : Text) : Prop :=
  a.getLast?.all isBlank = true ∨ b.head?.all isBlank = true

instance (a b : Text) : Decidable (KeptApart a b) := inferInstanceAs (Decidable (_ ∨ _))

theorem keptApart_iff {a b : Text} : KeptApart a b ↔
    (∀ c, a.getLast? = some c → isBlank c = true) ∨ ∀ c, b.head? = some c → isBlank c = true := by
  simp only [KeptApart, Option.all_eq_true]

theorem KeptApart.words_append {a b : Text} (h : KeptApart a b) :
    words (a ++ b) = words a ++ words b :=
  (keptApart_iff.1 h).elim (words_append_of_last · b) (words_append_of_head · a)

theorem KeptApart.of_append_left {a a' b : Text} (h : KeptApart (a ++ a') b) : KeptApart a' b := by
  refine keptApart_iff.2 ((keptApart_iff.1 h).imp_left fun hlast c hc => hlast c ?_)
  rw [List.getLast?_append, hc, Option.some_or]

theorem KeptApart.of_append_right {a b b' : Text} (h : KeptApart a (b ++ b')) : KeptApart a b := by
  refine keptApart_iff.2 ((keptApart_iff.1 h).imp_right fun hhead c hc => hhead c ?_)
  rw [List.head?_append, hc, Option.some_or]

/-- A space between texts that are kept apart changes none of the lines that stay. -/
theorem KeptApart.standing_append_space {a b : Text} (h : KeptApart a b) :
    standing (a ++ ' ' :: b) = standing (a ++ b) := by
  have hline : ∀ {l r : Text}, '\n' ∉ l → '\n' ∉ r → KeptApart l r →
      standing (l ++ ' ' :: r) = standing (l ++ r) := by
    intro l r hl hr hlr
    rw [standing_of_line (by simp [hl, hr]), standing_of_line (by simp [hl, hr])]
    exact standingLine_congr (by rw [hlr.words_append, words_append_cons (by decide)])
  -- the line the space stands in ends where `b` does or in it
  have hlines : ∀ {l : Text}, '\n' ∉ l → KeptApart l b →
      standing (l ++ ' ' :: b) = standing (l ++ b) := by
    intro l hl hlb
    by_cases hb : '\n' ∈ b
    · obtain ⟨r, b, rfl, hr⟩ := List.eq_append_cons_of_mem hb
      have happ := hline hl hr hlb.of_append_right
      rw [← List.cons_append, ← List.append_assoc, ← List.append_assoc, standing_append_break,
        standing_append_break, happ]
    · exact hline hl hb hlb
  -- and it begins where `a` does or in it
  induction hn : a.length using Nat.strong_induction_on generalizing a with
  | _ n ih =>
    by_cases ha : '\n' ∈ a
    · obtain ⟨l, a, rfl, -⟩ := List.eq_append_cons_of_mem ha
      have hshort : a.length < n := by
        rw [← hn, List.length_append, List.length_cons]
        omega
      have happ := ih _ hshort (KeptApart.of_append_left (a := l ++ ['\n']) (by simpa using h)) rfl
      rw [List.append_assoc, List.append_assoc, List.cons_append, List.cons_append,
        standing_append_break, standing_append_break, happ]
    · exact hlines ha h

end SqlScribe
