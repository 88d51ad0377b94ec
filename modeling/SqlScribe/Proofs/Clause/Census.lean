import Mathlib.Algebra.GroupWithZero.Nat
import SqlScribe.Proofs.Clause.TopLevel

/-!
# How often a word stands at the top level

A word stands in a text where the longest run of identifier characters is the word, in any case;
it stands at the top level outside of quotations and parentheses. Layout does not matter to how
often it stands there, and a statement has the word as often as its clauses have it. Main
statements:

* `Text.passed_append`, `Text.census_append`: a text is counted part by part;
* `Text.census_collapse`: the layout of a text does not count;
* `Outline.census_scan`, `Outline.census_render`: a statement and its clauses.
-/

namespace SqlScribe

open Outline

namespace Text

/-! ## Counting -/

/-- Whether the identifier `run`, in capitals, is the word and ends at the top level. -/
def closes (w : Text) (n : Nesting) (run : Text) : Nat := if n.isTop && run == w then 1 else 0

/-- How many times the word ends within a text that is read behind the beginning `run` of an
identifier. -/
def passed (w : Text) (n : Nesting) (run : Text) : Text → Nat
  | [] => 0
  | c :: t =>
      if isIdentifierChar c then passed w (n.read c) (run ++ [c.toUpper]) t
      else closes w n run + passed w (n.read c) [] t

/-- The beginning of an identifier that a text leaves behind it. -/
def runAfter (run : Text) : Text → Text
  | [] => run
  | c :: t => if isIdentifierChar c then runAfter (run ++ [c.toUpper]) t else runAfter [] t

/-- How often the word stands in a text that is read from a place of another. -/
def censusFrom (w : Text) (n : Nesting) (run : Text) (t : Text) : Nat :=
  passed w n run t + closes w (nestingAfter n t) (runAfter run t)

/-- How often the word, given in capitals, stands at the top level of a text. -/
def census (w t : Text) : Nat := censusFrom w .top [] t

variable {w : Text} {n : Nesting} {run a b t : Text} {c : Char}

theorem closes_nil (hw : w ≠ []) (n : Nesting) : closes w n [] = 0 :=
  if_neg (by simp [hw])

/-- In nothing the word does not stand. -/
theorem censusFrom_nil (hw : w ≠ []) (n : Nesting) : censusFrom w n [] [] = 0 :=
  (Nat.zero_add _).trans (closes_nil hw n)

theorem closes_le_one (w : Text) (n : Nesting) (run : Text) : closes w n run ≤ 1 := by
  rw [closes]
  split <;> decide

theorem passed_append (w : Text) (n : Nesting) (run a b : Text) :
    passed w n run (a ++ b)
      = passed w n run a + passed w (nestingAfter n a) (runAfter run a) b := by
  induction a generalizing n run with
  | nil => exact (Nat.zero_add _).symm
  | cons c a ih =>
    rw [List.cons_append, passed, passed, runAfter]
    split
    · exact ih _ _
    · rw [ih, Nat.add_assoc]
      rfl

theorem runAfter_append (run a b : Text) : runAfter run (a ++ b) = runAfter (runAfter run a) b := by
  induction a generalizing run with
  | nil => rfl
  | cons c a ih =>
    rw [List.cons_append, runAfter, runAfter]
    split <;> exact ih _

/-- Behind a sign, or at the start, no identifier has begun. -/
theorem runAfter_of_last (h : ∀ c, a.getLast? = some c → isIdentifierChar c = false) :
    runAfter [] a = [] := by
  rcases List.eq_nil_or_concat a with rfl | ⟨a, c, rfl⟩
  · rfl
  · rw [List.concat_eq_append] at h ⊢
    rw [runAfter_append, runAfter, if_neg (by simp [h c List.getLast?_concat])]
    rfl

theorem censusFrom_append (w : Text) (n : Nesting) (run a b : Text) :
    censusFrom w n run (a ++ b)
      = passed w n run a + censusFrom w (nestingAfter n a) (runAfter run a) b := by
  rw [censusFrom, censusFrom, passed_append, nestingAfter_append, runAfter_append, Nat.add_assoc]

/-- A character of an identifier goes on with it. -/
theorem censusFrom_cons_char (hc : isIdentifierChar c = true) (w : Text) (n : Nesting)
    (run t : Text) : censusFrom w n run (c :: t) = censusFrom w (n.read c)
      (run ++ [c.toUpper]) t := by
  rw [censusFrom, passed, if_pos hc, runAfter, if_pos hc]
  rfl

/-- A sign ends the identifier in front of it. -/
theorem censusFrom_cons_sign (hc : isIdentifierChar c = false) (w : Text) (n : Nesting)
    (run t : Text) :
    censusFrom w n run (c :: t) = closes w n run + censusFrom w (n.read c) [] t := by
  rw [censusFrom, passed, if_neg (by simp [hc]), runAfter, if_neg (by simp [hc]), Nat.add_assoc]
  rfl

theorem censusFrom_append_sign (hc : isIdentifierChar c = false) (w : Text) (n : Nesting)
    (run a b : Text) : censusFrom w n run (a ++ c :: b)
      = censusFrom w n run a + censusFrom w ((nestingAfter n a).read c) [] b := by
  rw [censusFrom_append, censusFrom_cons_sign hc, ← Nat.add_assoc]
  rfl

/-- **Counting part by part.** At the top level, where no identifier runs on, a text is counted in
two parts. -/
theorem census_append (hw : w ≠ []) (htop : nestingAfter .top a = .top)
    (hlast : ∀ c, a.getLast? = some c → isIdentifierChar c = false) (b : Text) :
    census w (a ++ b) = census w a + census w b := by
  have hrun := runAfter_of_last hlast
  have ha : census w a = passed w .top [] a := by
    rw [census, censusFrom, hrun, closes_nil hw, Nat.add_zero]
  rw [ha, census, censusFrom_append, hrun, htop]
  rfl

/-- A sign at the top level parts a text in two. -/
theorem census_append_cons (hw : w ≠ []) (hc : isIdentifierChar c = false)
    (htop : nestingAfter .top a = .top) (b : Text) :
    census w (a ++ c :: b) = census w a + census w (c :: b) := by
  rw [census, censusFrom_append_sign hc, htop, census, census, censusFrom_cons_sign hc,
    closes_nil hw, Nat.zero_add]

/-! ## Layout -/

theorem nestingAfter_of_idle (hn : IsClosing n.closing) (h : ∀ c ∈ t, isIdle c = true) :
    nestingAfter n t = n :=
  nestingAfter_of_nestingAfter? (nestingAfter?_of_isIdle hn h)

theorem nestingAfter_of_blank (hn : IsClosing n.closing) (h : ∀ c ∈ t, isBlank c = true) :
    nestingAfter n t = n :=
  nestingAfter_of_idle hn fun c hc => isIdle_of_isBlank (h c hc)

/-- Without parentheses the depth stays. -/
theorem nestingAfter_of_noParen (h : ∀ c ∈ t, c ≠ '(' ∧ c ≠ ')') (n : Nesting) :
    nestingAfter n t = ⟨n.depth, closingAt n.closing t⟩ := by
  induction t generalizing n with
  | nil => rfl
  | cons c t ih =>
    obtain ⟨⟨hopen, hclose⟩, ht⟩ := List.forall_mem_cons.1 h
    have hread := Nesting.read_of_ne hopen hclose n.depth n.closing
    exact (congrArg (nestingAfter · t) hread).trans (ih ht _)

/-- Blanks in front of which no identifier has begun do not count. -/
theorem censusFrom_blanks_append (hw : w ≠ []) (hn : IsClosing n.closing)
    (ha : ∀ c ∈ a, isBlank c = true) (b : Text) :
    censusFrom w n [] (a ++ b) = censusFrom w n [] b := by
  induction a with
  | nil => rfl
  | cons c a ih =>
    obtain ⟨hc, ha⟩ := List.forall_mem_cons.1 ha
    rw [List.cons_append, censusFrom_cons_sign (isIdentifierChar_of_isBlank hc), closes_nil hw,
      Nat.zero_add, Nesting.read_of_isIdle hn (isIdle_of_isBlank hc), ih ha]

/-- Signs behind a text do not count. -/
theorem censusFrom_append_signs (hw : w ≠ []) (hb : ∀ c ∈ b, isIdentifierChar c = false)
    (n : Nesting) (run a : Text) : censusFrom w n run (a ++ b) = censusFrom w n run a := by
  induction b generalizing run a with
  | nil => rw [List.append_nil]
  | cons c b ih =>
    obtain ⟨hc, hb⟩ := List.forall_mem_cons.1 hb
    have hone : censusFrom w n run (a ++ [c]) = censusFrom w n run a := by
      rw [censusFrom_append_sign hc, censusFrom_nil hw, Nat.add_zero]
    rw [List.append_cons, ih hb, hone]

theorem census_dropEnd (hw : w ≠ []) {p : Char → Bool}
    (hp : ∀ c, p c = true → isIdentifierChar c = false) (t : Text) :
    census w (dropEnd p t) = census w t := by
  obtain ⟨e, he, hall⟩ := dropEnd_append_ending p t
  conv_rhs => rw [he]
  exact (censusFrom_append_signs hw (fun c hc => hp c (hall c hc)) _ _ _).symm

theorem census_trim (hw : w ≠ []) (t : Text) : census w (trim t) = census w t := by
  have hstart := censusFrom_blanks_append hw isClosing_none (n := .top) (a := t.takeWhile isBlank)
    (List.all_eq_true.1 List.all_takeWhile) (t.dropWhile isBlank)
  rw [List.takeWhile_append_dropWhile] at hstart
  rw [trim, trimEnd, census_dropEnd hw fun _ => isIdentifierChar_of_isBlank, trimStart, census,
    ← hstart]
  rfl

theorem nestingAfter_trim (t : Text) : nestingAfter .top (trim t) = nestingAfter .top t := by
  obtain ⟨u, e, hsplit, hblank, hall⟩ := exists_trim t
  conv_rhs => rw [hsplit]
  rw [nestingAfter_append, nestingAfter_of_blank isClosing_none hblank, nestingAfter_append,
    nestingAfter_of_blank (isClosing_nestingAfter isClosing_none _) hall]

/-- Squeezing the blanks of a text changes neither its words nor where they stand. -/
theorem censusFrom_squeeze (hw : w ≠ []) (hn : IsClosing n.closing) (run t : Text) :
    censusFrom w n run (squeeze t) = censusFrom w n run t := by
  induction t generalizing n run with
  | nil => rfl
  | cons c t ih =>
    have hread : IsClosing (n.read c).closing := by
      rw [closing_read]
      exact hn.after c
    rw [squeeze]
    split
    · next hblank =>
      have hsign := isIdentifierChar_of_isBlank hblank
      have hidle := Nesting.read_of_isIdle hn (isIdle_of_isBlank hblank)
      split
      · next hhead =>
        obtain ⟨d, t, rfl⟩ : ∃ d s, t = d :: s :=
          List.exists_cons_of_ne_nil (by rintro rfl; exact absurd hhead (by simp))
        have hd : isBlank d = true := by simpa using hhead
        have hdsign := isIdentifierChar_of_isBlank hd
        rw [ih hn run, censusFrom_cons_sign hsign, hidle, censusFrom_cons_sign hdsign,
          censusFrom_cons_sign hdsign, closes_nil hw, Nat.zero_add]
      · rw [censusFrom_cons_sign (by decide), censusFrom_cons_sign hsign, hidle,
          Nesting.read_of_isIdle hn (by decide), ih hn []]
    · cases hc : isIdentifierChar c with
      | true => rw [censusFrom_cons_char hc, censusFrom_cons_char hc, ih hread]
      | false => rw [censusFrom_cons_sign hc, censusFrom_cons_sign hc, ih hread]

theorem census_collapse (hw : w ≠ []) (t : Text) : census w (collapse t) = census w t := by
  rw [collapse_eq_trim_squeeze, census_trim hw, census, censusFrom_squeeze hw isClosing_none]
  rfl

/-- Texts that all but the last are read over are counted one by one between spaces. -/
theorem census_join_spaces (hw : w ≠ []) {ts : List Text}
    (htop : ∀ t ∈ ts.dropLast, nestingAfter .top t = .top) :
    census w (join [' '] ts) = (ts.map (census w)).sum := by
  induction ts with
  | nil => exact censusFrom_nil hw _
  | cons t ts ih =>
    by_cases hnil : ts = []
    · subst hnil
      simp [join]
    · rw [List.dropLast_cons_of_ne_nil hnil, List.forall_mem_cons] at htop
      have hspace : census w (' ' :: join [' '] ts) = census w (join [' '] ts) :=
        censusFrom_blanks_append hw isClosing_none (a := [' ']) (by decide) _
      rw [join_cons _ _ hnil, List.append_assoc, List.singleton_append,
        census_append_cons hw (by decide) htop.1, hspace, ih htop.2, List.map_cons, List.sum_cons]

end Text

/-! ## Keywords -/

/-- What is taken for a word has the words of the word. -/
theorem Keyword.censusFrom_taken {w k u r : Text} (hw : w ≠ [])
    (hk : ∀ e ∈ k, isIdentifierChar e = true ∨ e = ' ') (h : after? k (u ++ r) = some r)
    {n : Nesting} (hn : Text.IsClosing n.closing) (run : Text) :
    Text.censusFrom w n run u = Text.censusFrom w n run k := by
  induction k generalizing u n run with
  | nil =>
    have hu : u ++ r = [] ++ r := Option.some.inj h
    rw [List.append_cancel_right hu]
  | cons e k ih =>
    obtain ⟨he, hrest⟩ := List.forall_mem_cons.1 hk
    cases u with
    | nil =>
      -- a word takes something
      obtain ⟨v, hv, hlength, -⟩ := taken_of_after? h
      have hlengths := congrArg List.length hv
      simp only [List.nil_append, List.length_append, List.length_cons] at hlengths hlength
      omega
    | cons c u =>
      rw [List.cons_append, after?] at h
      split at h
      · next hspace =>
        obtain rfl : e = ' ' := eq_of_beq hspace
        split at h
        · next hblank =>
          obtain ⟨v, hv, -⟩ := taken_of_after? h
          have hu : u ++ r = ((u ++ r).takeWhile isBlank ++ v) ++ r := by
            rw [List.append_assoc, ← hv, List.takeWhile_append_dropWhile]
          have hblanks : ∀ x ∈ (u ++ r).takeWhile isBlank, isBlank x = true :=
            List.all_eq_true.1 List.all_takeWhile
          rw [hv] at h
          rw [List.append_cancel_right hu,
            Text.censusFrom_cons_sign (isIdentifierChar_of_isBlank hblank),
            Text.censusFrom_cons_sign (by decide),
            Nesting.read_of_isIdle hn (isIdle_of_isBlank hblank),
            Nesting.read_of_isIdle hn (by decide), Text.censusFrom_blanks_append hw hn hblanks,
            ih hrest h hn]
        · exact absurd h (by simp)
      · next hspace =>
        split at h
        · next hletter =>
          obtain rfl : e = c.toUpper := eq_of_beq hletter
          have hupper : isIdentifierChar c.toUpper = true :=
            he.resolve_right fun hc => hspace (by rw [hc]; rfl)
          have hc : isIdentifierChar c = true := by rwa [isIdentifierChar_toUpper] at hupper
          rw [Text.censusFrom_cons_char hc, Text.censusFrom_cons_char hupper, toUpper_toUpper,
            Nesting.read_of_isIdle hn (isIdle_of_isIdentifierChar hc),
            Nesting.read_of_isIdle hn (isIdle_of_isIdentifierChar hupper), ih hrest h hn]
        · exact absurd h (by simp)

/-! ## Statements and their clauses -/

/-- What stands in front of a keyword and behind it does not go on with an identifier. -/
theorem Stretch.Stands.exists_behind {s : Stretch} {a rest : Text}
    (h : s.Stands (a ++ (s.text ++ rest)) a) (hkind : s.kind ≠ .leading) :
    (∀ c, a.getLast? = some c → isIdentifierChar c = false) ∧
      ∃ d r, s.body ++ rest = d :: r ∧ isIdentifierChar d = false ∧
        Keyword.after? s.kind.word (s.keyword ++ d :: r) = some (d :: r) := by
  have hfound := h.found hkind
  rw [Keyword.lengthAt?_append, Keyword.length?_eq_some_iff] at hfound
  obtain ⟨hstart, d, r, hafter, hacc, hlength⟩ := hfound
  obtain ⟨u, hu, -, -⟩ := Keyword.taken_of_after? hafter
  rw [Stretch.text, List.append_assoc] at hu
  have hlengths := congrArg List.length hu
  simp only [Stretch.text, List.length_append, List.length_cons] at hlength hlengths
  obtain ⟨rfl, hbehind⟩ := List.append_inj hu (by omega)
  rw [Stretch.text, List.append_assoc, hbehind, ClauseKind.keyword_word] at hafter
  refine ⟨fun c hc => ?_, d, r, hbehind, ClauseKind.isIdentifierChar_of_accepts hacc, hafter⟩
  rw [lastOf, hc, Option.some_or, Keyword.mayStartAfter, Bool.and_eq_true] at hstart
  simpa using hstart.1

namespace Outline

variable {w : Text}

/-- How often a word stands at the top level of a clause. -/
def clauseCensus (w : Text) (c : Clause) : Nat := Text.census w c.kind.word + Text.census w c.body

theorem nestingAfter_word (k : ClauseKind) : nestingAfter .top k.word = .top := by
  cases k <;> decide

theorem census_writeClause (hw : w ≠ []) (c : Clause) :
    Text.census w (writeClause c) = clauseCensus w c := by
  by_cases hk : c.kind = .leading
  · obtain ⟨k, b⟩ := c
    obtain rfl : k = .leading := hk
    have hword : Text.census w ClauseKind.leading.word = 0 := Text.censusFrom_nil hw _
    rw [clauseCensus, hword, Nat.zero_add]
    rfl
  · have hspace : Text.census w (' ' :: c.body) = Text.census w c.body :=
      Text.censusFrom_blanks_append hw Text.isClosing_none (a := [' ']) (by decide) _
    rw [writeClause_eq hk, Text.census_append_cons hw (by decide) (nestingAfter_word _), hspace,
      clauseCensus]

theorem nestingAfter_writeClause (c : Clause) :
    nestingAfter .top (writeClause c) = nestingAfter .top c.body := by
  by_cases hk : c.kind = .leading
  · obtain ⟨k, b⟩ := c
    obtain rfl : k = .leading := hk
    rfl
  · rw [writeClause_eq hk, nestingAfter_append, nestingAfter_word]
    rfl

/-- **What is written has a word as often as the clauses have it**, when all but the last of them
are read over. -/
theorem census_render (hw : w ≠ []) {o : Outline}
    (htop : ∀ c ∈ o.clauses.dropLast, nestingAfter .top c.body = .top) :
    Text.census w o.render = (o.clauses.map (clauseCensus w)).sum := by
  have hsemicolon : ∀ c ∈ (if o.terminated then [';'] else []), isIdentifierChar c = false := by
    split <;> decide
  have hclauses : (o.clauses.map writeClause).map (Text.census w)
      = o.clauses.map (clauseCensus w) := by
    rw [List.map_map]
    exact List.map_congr_left fun c _ => census_writeClause hw c
  rw [render_eq, Text.census, Text.censusFrom_append_signs hw hsemicolon, ← Text.census, written,
    Text.census_collapse hw, Text.census_join_spaces hw, hclauses]
  rw [← List.map_dropLast, List.forall_mem_map]
  exact fun c hc => (nestingAfter_writeClause c).trans (htop c hc)

theorem word_chars (k : ClauseKind) : ∀ e ∈ k.word, isIdentifierChar e = true ∨ e = ' ' := by
  cases k <;> decide

/-- One stretch behind another text is counted as its clause is. -/
theorem census_append_stretch (hw : w ≠ []) {s : Stretch} {a rest : Text}
    (hkind : s.kind ≠ .leading) (hidle : ∀ c ∈ s.keyword, isIdle c = true)
    (hstand : s.Stands (a ++ (s.text ++ rest)) a) :
    Text.census w (a ++ s.text)
      = Text.census w a + clauseCensus w ⟨s.kind, Text.trim s.body⟩ := by
  obtain ⟨hlast, d, r, hbehind, hsign, hafter⟩ := hstand.exists_behind hkind
  have hword : Text.census w s.keyword = Text.census w s.kind.word :=
    Keyword.censusFrom_taken hw (word_chars s.kind) hafter Text.isClosing_none []
  have htop : nestingAfter .top s.keyword = .top :=
    Text.nestingAfter_of_idle Text.isClosing_none hidle
  have htext : Text.census w s.text = Text.census w s.keyword + Text.census w s.body := by
    rw [Stretch.text]
    cases hb : s.body with
    | nil =>
      have hnil : Text.census w [] = 0 := Text.censusFrom_nil hw _
      rw [List.append_nil, hnil, Nat.add_zero]
    | cons c b =>
      rw [hb] at hbehind
      obtain ⟨rfl, -⟩ := List.cons.inj hbehind
      exact Text.census_append_cons hw hsign htop b
  rw [Text.census_append hw hstand.level hlast, htext, hword, clauseCensus, Text.census_trim hw]

/-- Stretches that stand one behind the other, behind another text, each with a keyword. -/
structure Row (a : Text) (ss : List Stretch) : Prop where
  keywords : ∀ s ∈ ss, s.kind ≠ .leading ∧ ∀ c ∈ s.keyword, isIdle c = true
  stands : ∀ xs s ys, ss = xs ++ s :: ys →
    s.Stands (a ++ Stretch.textOf ss) (a ++ Stretch.textOf xs)

variable {a : Text} {s : Stretch} {ss : List Stretch}

theorem Row.first (h : Row a (s :: ss)) : s.Stands (a ++ (s.text ++ Stretch.textOf ss)) a := by
  have hstand := h.stands [] s ss rfl
  rwa [Stretch.textOf, Stretch.textOf, List.flatMap_nil, List.append_nil,
    List.flatMap_cons] at hstand

theorem Row.rest (h : Row a (s :: ss)) : Row (a ++ s.text) ss := by
  refine ⟨fun x hx => h.keywords x (List.mem_cons_of_mem s hx), fun xs x ys hcut => ?_⟩
  have hstand := h.stands (s :: xs) x ys (by rw [hcut, List.cons_append])
  rw [Stretch.textOf, Stretch.textOf, List.flatMap_cons, List.flatMap_cons] at hstand
  rw [List.append_assoc, List.append_assoc]
  exact hstand

/-- Stretches in a row are counted as their clauses are. -/
theorem Row.census_append (hw : w ≠ []) (h : Row a ss) :
    Text.census w (a ++ Stretch.textOf ss) = Text.census w a +
      (ss.map fun s => clauseCensus w ⟨s.kind, Text.trim s.body⟩).sum := by
  induction ss generalizing a with
  | nil => simp [Stretch.textOf]
  | cons s ss ih =>
    obtain ⟨hkind, hidle⟩ := h.keywords s List.mem_cons_self
    have htext : a ++ Stretch.textOf (s :: ss) = a ++ s.text ++ Stretch.textOf ss := by
      rw [Stretch.textOf, List.flatMap_cons, List.append_assoc, Stretch.textOf]
    rw [htext, ih h.rest, census_append_stretch hw hkind hidle h.first, List.map_cons,
      List.sum_cons, Nat.add_assoc]

/-- The bodies of stretches in front of others in a row are read over. -/
theorem Row.nestingAfter_body (h : Row a ss) :
    ∀ s ∈ ss.dropLast, nestingAfter .top s.body = .top := by
  induction ss generalizing a with
  | nil => simp
  | cons s ss ih =>
    cases ss with
    | nil => simp
    | cons s' ss =>
      rw [List.dropLast_cons_of_ne_nil (List.cons_ne_nil s' ss), List.forall_mem_cons]
      refine ⟨?_, ih h.rest⟩
      have hbehind := h.rest.first.level
      have hkeyword := Text.nestingAfter_of_idle Text.isClosing_none (n := .top)
        (h.keywords s List.mem_cons_self).2
      rwa [nestingAfter_append, h.first.level, Stretch.text, nestingAfter_append,
        hkeyword] at hbehind

/-- **A statement has a word as often as its clauses have it**, and all but the last of them are
read over. -/
theorem census_scan (hw : w ≠ []) (sql : Text) :
    ((scan sql).clauses.map (clauseCensus w)).sum = Text.census w sql ∧
      ∀ c ∈ (scan sql).clauses.dropLast, nestingAfter .top c.body = .top := by
  obtain ⟨b, ss, htext, -, hsplit, hkinds, hstands⟩ :=
    Stretch.exists_of_split .leading [] (bodyOf sql) rfl
  simp only [List.nil_append, lastOf_nil] at hsplit hstands
  rw [htext] at hstands
  have hrow : Row b ss := ⟨hkinds, hstands⟩
  have hbody : Text.census w (bodyOf sql) = Text.census w sql := by
    have hsemicolon : ∀ c, (c == ';') = true → isIdentifierChar c = false := fun c hc =>
      eq_of_beq hc ▸ by decide
    rw [bodyOf, Text.trimEnd, Text.census_dropEnd hw fun _ => isIdentifierChar_of_isBlank,
      Text.census_dropEnd hw hsemicolon, Text.census_trim hw]
  have hleading : Text.census w b = clauseCensus w ⟨.leading, Text.trim b⟩ := by
    have hword : Text.census w ClauseKind.leading.word = 0 := Text.censusFrom_nil hw _
    rw [clauseCensus, hword, Nat.zero_add, Text.census_trim hw]
  have hbodies : ∀ c ∈ (ss.map fun s => (⟨s.kind, Text.trim s.body⟩ : Clause)).dropLast,
      nestingAfter .top c.body = .top := by
    rw [← List.map_dropLast, List.forall_mem_map]
    exact fun s hs => (Text.nestingAfter_trim s.body).trans (hrow.nestingAfter_body s hs)
  have hcounted := hrow.census_append hw
  rw [scan_clauses, clausesOf, hsplit, ← hbody, htext, hcounted, hleading]
  split
  · next hempty =>
    have hnone : clauseCensus w ⟨.leading, Text.trim b⟩ = 0 := by
      rw [List.isEmpty_iff.1 hempty]
      exact congrArg₂ (· + ·) (Text.censusFrom_nil hw _) (Text.censusFrom_nil hw _)
    rw [hnone, Nat.zero_add, List.map_map]
    exact ⟨rfl, hbodies⟩
  · rw [List.map_cons, List.sum_cons, List.map_map]
    refine ⟨rfl, ?_⟩
    by_cases hnil : ss = []
    · subst hnil
      simp
    · obtain ⟨s, rest, rfl⟩ := List.exists_cons_of_ne_nil hnil
      rw [List.dropLast_cons_of_ne_nil (by simp), List.forall_mem_cons]
      exact ⟨(Text.nestingAfter_trim b).trans hrow.first.level, hbodies⟩

end Outline

end SqlScribe
