import SqlScribe.Proofs.Dialect.Layout
import SqlScribe.Proofs.Dialect.Separators

/-!
# Comments

A comment is taken out of a statement and nothing is put in its place. Main statements:

* `replaceFrom_lineComment`: what the rule for comments to the end of a line leaves of a comment
  between marks;
* `replaceFrom_blockComment`: the rule for comments between marks leaves what stands around the
  comment;
* `applyTo_comments`: both rules, one behind the other;
* `Dialect.words_append_space`: what the other lexical rules make of a blank beside the comment;
* `Dialect.comment_leaves_nothing`: what a dialect makes of a statement with a comment in it.
-/

namespace SqlScribe

open Text Pattern

variable {x y : Char} {t u v w : Text}

/-! ## Marks of two characters -/

/-- A mark does not begin in a text that does not have it, if it does not run over the end of this
text. -/
theorem not_prefix_pair (hw : w ≠ []) (h : ¬ [x, y] <:+: w)
    (hseam : w.getLast? ≠ some x ∨ u.head? ≠ some y) : ¬ [x, y] <+: w ++ u := by
  obtain ⟨c, w, rfl⟩ := List.exists_cons_of_ne_nil hw
  rintro ⟨r, hr⟩
  simp only [List.cons_append, List.nil_append, List.cons.injEq] at hr
  obtain ⟨rfl, hr⟩ := hr
  cases w with
  | nil =>
    rw [List.nil_append] at hr
    exact hseam.elim (absurd rfl) (absurd (by rw [← hr]; rfl))
  | cons d w => exact h ⟨[], w, by rw [(List.cons.inj hr).1]; rfl⟩

theorem not_infix_append_pair (hw : ¬ [x, y] <:+: w) (hu : ¬ [x, y] <:+: u)
    (hseam : w.getLast? ≠ some x ∨ u.head? ≠ some y) : ¬ [x, y] <:+: w ++ u := by
  rintro ⟨v, r, hvr⟩
  rw [List.append_assoc] at hvr
  rcases List.append_eq_append_iff.1 hvr with ⟨s, rfl, hs⟩ | ⟨s, rfl, hs⟩
  · by_cases hne : s = []
    · exact hu ⟨[], r, by simpa [hne] using hs⟩
    · have hin : ¬ [x, y] <:+: s := fun hin => hw (hin.trans (List.suffix_append v s).isInfix)
      rw [List.getLast?_append_of_ne_nil v hne] at hseam
      exact not_prefix_pair hne hin hseam ⟨r, hs⟩
  · exact hu ⟨s, r, by rw [hs, List.append_assoc]⟩

/-- Neither comment begins in the text. -/
structure Uncommented (t : Text) : Prop where
  line : ¬ ['-', '-'] <:+: t
  block : ¬ ['/', '*'] <:+: t

/-- What may stand between the marks of a comment: no mark that ends it, and no dashes but those
with a line break behind them, which would take the mark that ends it away. -/
structure Enclosed (c : Text) : Prop where
  open_end : ¬ ['*', '/'] <:+: c
  lines : ∀ l r, c = l ++ '-' :: '-' :: r → '\n' ∈ r

/-- Without dashes nothing takes the mark away. -/
theorem Enclosed.of_no_dashes {c : Text} (hopen : ¬ ['*', '/'] <:+: c)
    (hline : ¬ ['-', '-'] <:+: c) :
    Enclosed c :=
  ⟨hopen, fun l r h => absurd ⟨l, r, by simpa using h.symm⟩ hline⟩

/-! ## Comments to the end of the line -/

theorem Enclosed.of_append {a c : Text} (h : Enclosed (a ++ c)) : Enclosed c := by
  refine ⟨fun hin => h.open_end (hin.trans (List.suffix_append a c).isInfix), fun l r hr => ?_⟩
  exact h.lines (a ++ l) r (by rw [hr, List.append_assoc])

/-- The pattern of comments to the end of the line. -/
def lineComment : Pattern := literal ['-', '-'] ++ run (.other (.among ['\n']))

/-- The pattern of comments between marks. -/
def blockComment : Pattern := literal ['/', '*'] ++ lazyStar (one .any) ++ literal ['*', '/']

theorem matchAt?_lineComment_eq_none {b : Option Char} (h : ¬ ['-', '-'] <+: t) :
    lineComment.matchAt? b t = none := by
  by_contra hne
  obtain ⟨m, hm⟩ := Option.ne_none_iff_exists'.1 hne
  have hof := isOf_of_matchAt? hm
  exact h ((prefix_of_spells_literal_seq hof.spells).trans ⟨m.after, hof.text_append⟩)

theorem matchAt?_blockComment_eq_none {b : Option Char} (h : ¬ ['/', '*'] <+: t) :
    blockComment.matchAt? b t = none := by
  by_contra hne
  obtain ⟨m, hm⟩ := Option.ne_none_iff_exists'.1 hne
  have hof := isOf_of_matchAt? hm
  exact h ((prefix_of_spells_literal_seq_seq hof.spells).trans ⟨m.after, hof.text_append⟩)

/-- A text without dashes is passed over. -/
theorem quiet_lineComment {b : Option Char} (h : ¬ ['-', '-'] <:+: w)
    (hseam : w.getLast? ≠ some '-' ∨ u.head? ≠ some '-') :
    Quiet lineComment b w u := by
  rintro v s rfl hs
  rw [List.getLast?_append_of_ne_nil v hs] at hseam
  refine matchAt?_lineComment_eq_none (not_prefix_pair hs (fun hin => h ?_) hseam)
  exact hin.trans (List.suffix_append v s).isInfix

theorem quiet_blockComment {b : Option Char} (h : ¬ ['/', '*'] <:+: w)
    (hseam : w.getLast? ≠ some '/' ∨ u.head? ≠ some '*') :
    Quiet blockComment b w u := by
  rintro v s rfl hs
  rw [List.getLast?_append_of_ne_nil v hs] at hseam
  refine matchAt?_blockComment_eq_none (not_prefix_pair hs (fun hin => h ?_) hseam)
  exact hin.trans (List.suffix_append v s).isInfix

/-- Where nothing is found everything stays. -/
theorem replaceFrom_eq_self {p : Pattern} {f : Match → Text} {b : Option Char}
    (h : Quiet p b w []) :
    replaceFrom p f b w = w := by
  have hpass := replaceFrom_quiet (f := f) h
  rwa [List.append_nil, replaceFrom_nil, List.append_nil] at hpass

/-- A comment to the end of the line. -/
theorem matchAt?_lineComment (b : Option Char) {l : Text} (hl : '\n' ∉ l) (r : Text)
    (hr : ∀ c, r.head? = some c → c = '\n') :
    lineComment.matchAt? b ('-' :: '-' :: l ++ r) = some ⟨b, '-' :: '-' :: l, [], r⟩ := by
  have hclass : ∀ c ∈ l, CharClass.has (.other (.among ['\n'])) c = true := by
    intro c hc
    have hne : c ≠ '\n' := fun h => hl (h ▸ hc)
    simp [CharClass.has, hne]
  have hstop : ∀ c, r.head? = some c → CharClass.has (.other (.among ['\n'])) c = false := by
    intro c hc
    rw [hr c hc]
    decide
  have hfirst : lineComment.first ⟨b, '-' :: '-' :: l ++ r, []⟩ some =
      some ⟨l.getLast?.or (some '-'), r, []⟩ := by
    rw [lineComment, first_append]
    exact (first_literal ['-', '-'] (l ++ r)).trans (first_run_append hclass hstop)
  exact matchAt?_of_first hfirst (List.cons_ne_nil _ _)

/-- What the rule for comments to the end of the line leaves of an enclosed text: the text behind
it, and in front of this an enclosed text again. -/
theorem replaceFrom_lineComment {c : Text} (hc : Enclosed c) (hw : ¬ ['-', '-'] <:+: w)
    (hhead : w.head? ≠ some '-') (b : Option Char) : ∃ c', ¬ ['*', '/'] <:+: c' ∧
      replaceFrom lineComment (fun _ => []) b (c ++ w) = c' ++ w ∧
      ∀ z, c'.head? = some z → c.head? = some z ∨ z = '\n' := by
  induction hn : c.length using Nat.strong_induction_on generalizing c b with
  | _ n ih =>
    cases c with
    | nil =>
      refine ⟨[], by simp, ?_, fun z hz => absurd hz (by simp)⟩
      exact replaceFrom_eq_self (quiet_lineComment hw (Or.inr (by simp)))
    | cons x c =>
      by_cases hstart : ['-', '-'] <+: x :: (c ++ w)
      · -- the dashes take the rest of their line, and a line break follows
        obtain ⟨l, r, rfl, rfl, hl⟩ : ∃ l r, x = '-' ∧ c = '-' :: l ++ '\n' :: r ∧ '\n' ∉ l := by
          obtain ⟨s, hs⟩ := hstart
          obtain ⟨rfl, htail⟩ := List.cons.inj hs
          cases c with
          | nil => exact absurd (congrArg List.head? htail).symm hhead
          | cons y c =>
            obtain ⟨rfl, -⟩ := List.cons.inj htail
            obtain ⟨l, r, rfl, hl⟩ := List.eq_append_cons_of_mem (hc.lines [] c rfl)
            exact ⟨l, r, rfl, rfl, hl⟩
        have hsplit : '-' :: ('-' :: l ++ '\n' :: r) ++ w = ('-' :: '-' :: l)
            ++ ('\n' :: r ++ w) := by
          simp
        have hmatch := matchAt?_lineComment b hl ('\n' :: r ++ w) fun z hz =>
          (Option.some.inj hz).symm
        have hrest : Enclosed ('\n' :: r) :=
          Enclosed.of_append (a := '-' :: '-' :: l) (by simpa using hc)
        obtain ⟨c', hopen, hreplace, hz⟩ :=
          ih ('\n' :: r).length (by simp only [← hn, List.length_cons, List.length_append]; omega)
            hrest (('-' :: '-' :: l).getLast?.or b) rfl
        refine ⟨c', hopen, ?_, fun z hz' => Or.inr ?_⟩
        · rw [hsplit, replaceFrom_hit hmatch rfl, List.nil_append, hreplace]
        · exact (hz z hz').elim (fun h => (Option.some.inj h).symm) id
      · obtain ⟨c', hopen, hreplace, hz⟩ := ih c.length (by simp [← hn])
          (Enclosed.of_append (a := [x]) hc) (some x) rfl
        refine ⟨x :: c', fun hin => ?_, ?_, fun z hz' => Or.inl hz'⟩
        · rcases List.infix_cons_iff.1 hin with ⟨r, hr⟩ | hin
          · -- the mark would have stood there already
            obtain ⟨rfl, htail⟩ := List.cons.inj hr
            have hhead' : c'.head? = some '/' := (congrArg List.head? htail).symm
            rcases hz '/' hhead' with h | h
            · obtain ⟨r, rfl⟩ := List.head?_eq_some_iff.1 h
              exact hc.open_end ⟨[], r, rfl⟩
            · exact absurd h (by decide)
          · exact hopen hin
        · rw [List.cons_append, replaceFrom_cons (matchAt?_lineComment_eq_none hstart), hreplace,
            List.cons_append]

/-! ## Comments between marks -/

/-- A comment between marks, up to the first mark that ends it. -/
theorem matchAt?_blockComment (b : Option Char) {c : Text} (hc : ¬ ['*', '/'] <:+: c) (r : Text) :
    blockComment.matchAt? b ((['/', '*'] ++ (c ++ ['*', '/'])) ++ r) =
      some ⟨b, ['/', '*'] ++ (c ++ ['*', '/']), [], r⟩ := by
  have hfail : ∀ v s, c = v ++ s → s ≠ [] →
      first (literal ['*', '/']) ⟨v.getLast?.or (some '*'), s ++ (['*', '/'] ++ r), []⟩ some
        = none := by
    rintro v s rfl hs
    rw [first_literal_eq, if_neg]
    rw [List.isPrefixOf_iff_prefix]
    have hopen : ¬ ['*', '/'] <:+: s := fun hin => hc (hin.trans (List.suffix_append v s).isInfix)
    exact not_prefix_pair hs hopen (Or.inr (by simp))
  have hend : first (literal ['*', '/']) ⟨c.getLast?.or (some '*'), ['*', '/'] ++ r, []⟩ some =
      some ⟨some '/', r, []⟩ := first_literal ['*', '/'] r
  have hfirst : blockComment.first ⟨b, (['/', '*'] ++ (c ++ ['*', '/'])) ++ r, []⟩ some =
      some ⟨some '/', r, []⟩ := by
    rw [blockComment, first_append, first_append, List.append_assoc, List.append_assoc,
      first_literal]
    exact first_lazyStar (fun _ _ => rfl) hfail hend
  exact matchAt?_of_first hfirst (List.cons_ne_nil _ _)

/-- **A comment leaves nothing.** The rule for comments between marks takes the comment out and
leaves the texts around it, the second right behind the first. -/
theorem replaceFrom_blockComment {a c b : Text} (ha : ¬ ['/', '*'] <:+: a)
    (hc : ¬ ['*', '/'] <:+: c) (hb : ¬ ['/', '*'] <:+: b) :
    replaceFrom blockComment (fun _ => []) none (a ++ ((['/', '*'] ++ (c ++ ['*', '/'])) ++ b)) =
      a ++ b := by
  rw [replaceFrom_quiet (quiet_blockComment ha (Or.inr (by simp))),
    replaceFrom_hit (matchAt?_blockComment _ hc b) rfl, List.nil_append,
    replaceFrom_eq_self (quiet_blockComment hb (Or.inr (by simp)))]

/-! ## Both rules -/

/-- The rule of a dialect for comments to the end of the line. -/
def lineRule (n : Text) : TextRule := ⟨n, lineComment, fun _ => []⟩

/-- The rule of a dialect for comments between marks. -/
def blockRule (n : Text) : TextRule := ⟨n, blockComment, fun _ => []⟩

/-- The statement with a comment between two texts. -/
def commented (a c b : Text) : Text := a ++ ((['/', '*'] ++ (c ++ ['*', '/'])) ++ b)

/-- Behind the rules for comments nothing is left of a comment. -/
theorem applyTo_comments {a c b : Text} (ha : Uncommented a) (hc : Enclosed c) (hb : Uncommented b)
    (n n' : Text) : (blockRule n').applyTo ((lineRule n).applyTo (commented a c b)) = a ++ b := by
  have hend : ¬ ['-', '-'] <:+: ['*', '/'] ++ b := by
    simpa [List.infix_cons_iff, List.cons_prefix_cons] using hb.line
  have hfront : ¬ ['-', '-'] <:+: a ++ ['/', '*'] :=
    not_infix_append_pair ha.line (by decide) (Or.inr (by decide))
  obtain ⟨c', hopen, hreplace, -⟩ := replaceFrom_lineComment hc hend (by simp)
    ((a ++ ['/', '*']).getLast?.or none)
  have hline : (lineRule n).applyTo (commented a c b) =
      a ++ ((['/', '*'] ++ (c' ++ ['*', '/'])) ++ b) := by
    have hsplit : commented a c b = (a ++ ['/', '*']) ++ (c ++ (['*', '/'] ++ b)) := by
      simp [commented]
    have hrule : (lineRule n).applyTo (commented a c b) =
        replaceFrom lineComment (fun _ => []) none (commented a c b) := replaceAll_eq _ _ _
    have hquiet : Quiet lineComment none (a ++ ['/', '*']) (c ++ (['*', '/'] ++ b)) :=
      quiet_lineComment hfront (Or.inl (by simp))
    rw [hrule, hsplit, replaceFrom_quiet hquiet, hreplace]
    simp
  rw [hline]
  exact (replaceAll_eq _ _ _).trans (replaceFrom_blockComment ha.block hopen hb.block)

/-! ## Dialects -/

/-- A dialect has its two rules for comments in front of its other rules. -/
theorem Dialect.lexical_eq {d : Dialect} {p : Pipeline} (hp : d.pipeline? = some p) :
    ∃ n n' rest, p.lexical = lineRule n :: blockRule n' :: rest := by
  cases d with
  | canonical => exact absurd hp.symm (Option.some_ne_none p)
  | hive =>
    obtain rfl := Option.some.inj hp
    exact ⟨"hive.line_comments", "hive.block_comments", [], rfl⟩
  | sybase =>
    obtain rfl := Option.some.inj hp
    exact ⟨"sybase.line_comments", "sybase.block_comments", _, rfl⟩

/-- A comment between two texts is gone behind the rules for comments. -/
theorem Dialect.lexed_commented {d : Dialect} {p : Pipeline} (hp : d.pipeline? = some p)
    {a c b : Text} (ha : Uncommented a) (hc : Enclosed c) (hb : Uncommented b) :
    p.lexed (commented a c b) = (p.lexical.drop 2).foldl (fun t r => r.applyTo t) (a ++ b) := by
  obtain ⟨n, n', rest, hlexical⟩ := Dialect.lexical_eq hp
  rw [Pipeline.lexed, hlexical, List.foldl_cons, List.foldl_cons, applyTo_comments ha hc hb]
  rfl

/-- Without a comment there is nothing to take out. -/
theorem Dialect.lexed_uncommented {d : Dialect} {p : Pipeline} (hp : d.pipeline? = some p)
    {t : Text} (ht : Uncommented t) :
    p.lexed t = (p.lexical.drop 2).foldl (fun t r => r.applyTo t) t := by
  obtain ⟨n, n', rest, hlexical⟩ := Dialect.lexical_eq hp
  have hline : (lineRule n).applyTo t = t :=
    (replaceAll_eq _ _ _).trans (replaceFrom_eq_self (quiet_lineComment ht.line (Or.inr (by simp))))
  have hblock : (blockRule n').applyTo t = t :=
    (replaceAll_eq _ _ _).trans (replaceFrom_eq_self
      (quiet_blockComment ht.block (Or.inr (by simp))))
  rw [Pipeline.lexed, hlexical, List.foldl_cons, List.foldl_cons, hline, hblock]
  rfl

/-- Behind the other lexical rules a space between texts that are kept apart is not seen. -/
theorem Dialect.words_append_space {d : Dialect} {p : Pipeline} (hp : d.pipeline? = some p)
    {a b : Text} (h : KeptApart a b) :
    words ((p.lexical.drop 2).foldl (fun t r => r.applyTo t) (a ++ ' ' :: b)) =
      words ((p.lexical.drop 2).foldl (fun t r => r.applyTo t) (a ++ b)) := by
  cases d with
  | canonical => exact absurd hp.symm (Option.some_ne_none p)
  | hive =>
    obtain rfl := Option.some.inj hp
    show words (a ++ ' ' :: b) = words (a ++ b)
    rw [h.words_append, words_append_cons (by decide)]
  | sybase =>
    obtain rfl := Option.some.inj hp
    have hrule : ∀ t : Text, words (goSeparator.replaceAll (fun _ => []) t) = standing t := fun t =>
      (congrArg words (replaceAll_eq _ _ _)).trans
      (words_replaceFrom_goSeparator (Or.inl (Or.inl rfl)))
    show words (goSeparator.replaceAll (fun _ => []) (a ++ ' ' :: b)) =
      words (goSeparator.replaceAll (fun _ => []) (a ++ b))
    rw [hrule, hrule, h.standing_append_space]

theorem Uncommented.append_space {a b : Text} (ha : Uncommented a) (hb : Uncommented b) :
    Uncommented (a ++ ' ' :: b) := by
  have hspace : Uncommented [' '] := ⟨by decide, by decide⟩
  have hrest : Uncommented ([' '] ++ b) :=
    ⟨not_infix_append_pair hspace.line hb.line (Or.inl (by decide)),
      not_infix_append_pair hspace.block hb.block (Or.inl (by decide))⟩
  exact ⟨not_infix_append_pair ha.line hrest.line (Or.inr (by simp)),
    not_infix_append_pair ha.block hrest.block (Or.inr (by simp))⟩

/-- **A comment leaves nothing.** A statement with a comment in it is brought to what the statement
without the comment is brought to, with the texts around the comment right behind one another. So
the comment counts as a space where a blank stands beside it. -/
theorem Dialect.comment_leaves_nothing {d : Dialect} {p : Pipeline} (hp : d.pipeline? = some p)
    {a c b : Text} (ha : Uncommented a) (hc : Enclosed c) (hb : Uncommented b) :
    (Uncommented (a ++ b) → (p.apply (commented a c b)).text = (p.apply (a ++ b)).text) ∧
      (KeptApart a b → (p.apply (commented a c b)).text = (p.apply (a ++ " " ++ b)).text) := by
  have hcomment := Dialect.lexed_commented hp ha hc hb
  constructor
  · intro hab
    rw [p.apply_text_eq, p.apply_text_eq, hcomment, Dialect.lexed_uncommented hp hab]
  · intro hapart
    have hspace : a ++ " " ++ b = a ++ ' ' :: b := List.append_assoc a _ b
    refine Dialect.apply_text_congr hp ?_
    rw [hcomment, hspace, Dialect.lexed_uncommented hp (ha.append_space hb),
      Dialect.words_append_space hp hapart]

theorem Dialect.comment_leaves_nothing_from :
    (Hive.pipeline.apply (commented "SELECT a" " the column " "FROM t")).text =
        (Hive.pipeline.apply ("SELECT a".toList ++ "FROM t".toList)).text ∧
      (Sybase.pipeline.apply (commented "SELECT a " " the column " "FROM t")).text =
        (Sybase.pipeline.apply ("SELECT a " ++ " " ++ "FROM t")).text :=
  ⟨(Dialect.comment_leaves_nothing (d := .hive) rfl ⟨by decide, by decide⟩
      (Enclosed.of_no_dashes (by decide) (by decide)) ⟨by decide, by decide⟩).1
      ⟨by decide, by decide⟩,
    (Dialect.comment_leaves_nothing (d := .sybase) rfl ⟨by decide, by decide⟩
      (Enclosed.of_no_dashes (by decide) (by decide)) ⟨by decide, by decide⟩).2 (by decide)⟩

/-- A comment does not separate what stands around it. -/
theorem Dialect.not_comment_separates : ¬ ∀ (d : Dialect) (p : Pipeline) (a c b : Text),
    d.pipeline? = some p → (a.foldl Nesting.read .top).closing = none → Uncommented a →
      ¬ ['*', '/'] <:+: c → Uncommented b →
        (p.apply (commented a c b)).text = (p.apply (a ++ " " ++ b)).text := by
  intro h
  have hall := h .hive Hive.pipeline "SELECT a" [] "FROM t" rfl (by decide) ⟨by decide, by decide⟩
    (by decide) ⟨by decide, by decide⟩
  exact absurd hall (by decide +kernel)

end SqlScribe
