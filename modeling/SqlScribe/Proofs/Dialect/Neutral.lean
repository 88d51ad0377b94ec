import SqlScribe.Dialect.Canonical
import SqlScribe.Proofs.Dialect.Terminator
import SqlScribe.Proofs.Pattern.Heads

/-!
# Texts that mean the same in every dialect

A text is neutral when no word in it begins as a match of a rule does, and none of the marks is in
it that the other rules ask for. No rule that works on clauses finds anything in such a text.
Main statements:

* `Text.exists_run`: a word at a place of a text where a word may begin;
* `Neutral.append`, `Neutral.join`, `Neutral.collapse`: neutral texts put together;
* `Neutral.applyTo`: rules leave neutral texts alone.
-/

namespace SqlScribe

/-! ## The words of a text -/

namespace Text

/-- The words of a text in the sense of patterns: its pieces between the characters that are none
of words. -/
def runs (t : Text) : List Text := cut (fun c => !isWordChar c) t

theorem runs_append_cons {c : Char} (hc : isWordChar c = false) (a b : Text) :
    runs (a ++ c :: b) = runs a ++ runs b :=
  cut_append_cons (by simp [hc]) a b

/-- Characters of words at the start of a text are the start of its first word. -/
theorem exists_run_head {u : Text} (hu : ∀ c ∈ u, isWordChar c = true) (s : Text) :
    ∃ r rest, runs (u ++ s) = (u ++ r) :: rest := by
  induction u with
  | nil => exact List.exists_cons_of_ne_nil (cut_ne_nil _ s)
  | cons c u ih =>
    obtain ⟨r, rest, hrs⟩ := ih fun d hd => hu d (List.mem_cons_of_mem c hd)
    obtain ⟨x, xs, hx, hcut⟩ :=
      cut_cons_of_neg (p := fun c => !isWordChar c) (c := c) (by simp [hu c List.mem_cons_self])
        (u ++ s)
    rw [runs, hx] at hrs
    obtain ⟨rfl, rfl⟩ := List.cons.inj hrs
    exact ⟨r, xs, hcut⟩

/-- Characters of words behind none of them are the start of a word. -/
theorem exists_run {v u : Text} (hv : v.getLast?.any isWordChar = false)
    (hu : ∀ c ∈ u, isWordChar c = true) (s : Text) : ∃ r, u ++ r ∈ runs (v ++ (u ++ s)) := by
  obtain ⟨r, rest, hrs⟩ := exists_run_head hu s
  rcases List.eq_nil_or_concat v with rfl | ⟨v, c, rfl⟩
  · exact ⟨r, by rw [List.nil_append, hrs]; exact List.mem_cons_self⟩
  · rw [List.concat_eq_append] at hv ⊢
    have hc : isWordChar c = false := by simpa using hv
    refine ⟨r, ?_⟩
    rw [List.append_assoc, List.singleton_append, runs_append_cons hc, hrs]
    exact List.mem_append_right _ List.mem_cons_self

/-- The words of a piece between blanks are words of the text. -/
theorem mem_runs_of_mem_words {t w r : Text} (hw : w ∈ words t) (hr : r ∈ runs w) :
    r ∈ runs t := by
  have hblank : ∀ c, isBlank c = true → (!isWordChar c) = true := fun c hc => by
    simp [isWordChar_of_isBlank hc]
  rw [runs, cut_eq_flatMap_cut hblank]
  exact List.mem_flatMap.2 ⟨w, (List.mem_filter.1 hw).1, hr⟩

/-- No word runs from the first text into the second. -/
def Parted (a b : Text) : Prop :=
  a.getLast?.any isWordChar = false ∨ b.head?.any isWordChar = false

/-- Texts that no word runs through have the words of both. -/
theorem mem_runs_append {a b w : Text} (h : Parted a b) (hw : w ∈ runs (a ++ b)) :
    w ∈ runs a ∨ w ∈ runs b := by
  rcases h with h | h
  · rcases List.eq_nil_or_concat a with rfl | ⟨a, c, rfl⟩
    · exact Or.inr hw
    · rw [List.concat_eq_append] at h hw ⊢
      have hc : isWordChar c = false := by simpa using h
      rw [List.append_assoc, List.singleton_append, runs_append_cons hc] at hw
      rw [runs_append_cons hc]
      exact (List.mem_append.1 hw).imp_left (List.mem_append_left _)
  · cases b with
    | nil =>
      rw [List.append_nil] at hw
      exact Or.inl hw
    | cons c b =>
      have hc : isWordChar c = false := by simpa using h
      rw [runs_append_cons hc] at hw
      refine (List.mem_append.1 hw).imp_right fun hw => ?_
      have hcons := runs_append_cons hc [] b
      rw [List.nil_append] at hcons
      rw [hcons]
      exact List.mem_append_right _ hw

/-- Whether a text keeps the words in front of it and behind it apart. -/
def isParting (sep : Text) : Bool :=
  !sep.isEmpty && !sep.head?.any isWordChar && !sep.getLast?.any isWordChar

theorem parted_of_isParting {a sep b : Text} (h : isParting sep = true) :
    Parted a sep ∧ Parted (a ++ sep) b := by
  simp only [isParting, Bool.and_eq_true, Bool.not_eq_true', List.isEmpty_eq_false_iff] at h
  exact ⟨Or.inr h.1.2, Or.inl (by rw [List.getLast?_append_of_ne_nil _ h.1.1]; exact h.2)⟩

end Text

/-! ## What rules look for -/

/-- The rules that work on clauses, of both dialects. -/
def clauseRules : List TextRule :=
  Hive.pipeline.types ++ Hive.pipeline.functions ++ Sybase.pipeline.types
    ++ Sybase.pipeline.functions

/-- The words that matches begin with if they begin with a word, in lower case. -/
def ruleWords : List Text := [
  "string", "bigint", "double", "concat", "collect_list", "from_unixtime", "unix_timestamp",
  "year", "month", "day", "nvarchar", "varchar", "nchar", "char", "image", "varbinary", "binary",
  "smallint", "tinyint", "smallmoney", "money", "numeric", "decimal", "float", "smalldatetime",
  "datetime", "timestamp", "date", "time", "isnull", "getdate", "datepart", "substring", "len",
  "charindex", "left", "right", "patindex", "identity", "distinct", "top"]

/-- Whether all matches begin with one of the words. -/
def headsAreWords (p : Pattern) : Bool := p.heads.all fun x => ruleWords.contains x.1

/-- What the other rules ask for: the marks in front of quoted names, and the letter of `explode`
that no name of a column or table has. -/
def markClasses : List CharClass := [.among ['['], .among ['\x60'], .letter 'x']

def isMark (c : Char) : Bool := markClasses.any (·.has c)

theorem isMark_iff {c : Char} : isMark c = true ↔ c = '[' ∨ c = '\x60' ∨ simpleFold c = 'x' := by
  have hx : simpleFold 'x' = 'x' := by decide
  have hletter : CharClass.has (.letter 'x') c = true ↔ simpleFold c = 'x' := by
    rw [CharClass.has, hx, beq_iff_eq]
    exact eq_comm
  have hamong : ∀ x, CharClass.has (.among [x]) c = true ↔ c = x := fun x => by
    simp [CharClass.has]
  rw [isMark, markClasses, List.any_cons, List.any_cons, List.any_cons, List.any_nil,
    Bool.or_false, Bool.or_eq_true, Bool.or_eq_true, hamong, hamong, hletter]

theorem ruleWords_labels : ∀ k ∈ ruleWords, k ≠ [] ∧ ∀ c ∈ k, isLabelChar c = true := by
  decide +kernel

theorem headsAreWords_or_asks : ∀ r ∈ clauseRules,
    (r.pattern.beginsAt .wordEdge = true ∧ headsAreWords r.pattern = true) ∨
      r.pattern.asks markClasses.contains = true := by
  have hall : (clauseRules.all fun r => r.pattern.beginsAt .wordEdge && headsAreWords r.pattern
      || r.pattern.asks markClasses.contains) = true := by
    decide +kernel
  intro r hr
  simpa using List.all_eq_true.1 hall r hr

/-- No word of the text begins as a match does, and no mark is in it. -/
structure Neutral (t : Text) : Prop where
  words : ∀ w ∈ t.runs, ∀ k ∈ ruleWords, ¬ k <+: w.map simpleFold
  marks : ∀ c ∈ t, isMark c = false

/-- Whether a text is neutral. -/
def isNeutral (t : Text) : Bool :=
  (t.runs.all fun w => ruleWords.all fun k => !k.isPrefixOf (w.map simpleFold))
    && t.all fun c => !isMark c

theorem isNeutral_iff {t : Text} : isNeutral t = true ↔ Neutral t := by
  rw [isNeutral, Bool.and_eq_true]
  constructor
  · rintro ⟨hwords, hmarks⟩
    refine ⟨fun w hw k hk => ?_, fun c hc => ?_⟩
    · have hnone := List.all_eq_true.1 (List.all_eq_true.1 hwords w hw) k hk
      rwa [Bool.not_eq_true', ← Bool.not_eq_true, List.isPrefixOf_iff_prefix] at hnone
    · simpa using List.all_eq_true.1 hmarks c hc
  · intro h
    refine ⟨List.all_eq_true.2 fun w hw => List.all_eq_true.2 fun k hk => ?_,
      List.all_eq_true.2 fun c hc => by simpa using h.marks c hc⟩
    rw [Bool.not_eq_true', ← Bool.not_eq_true, List.isPrefixOf_iff_prefix]
    exact h.words w hw k hk

/-- A character that is no mark and that no word of the rules begins with. -/
def isForeign (c : Char) : Bool :=
  !isMark c && ruleWords.all fun k => k.head? != some (simpleFold c)

/-- What stands for itself and is no small letter is foreign to the rules, unless it is a mark in
front of quoted names. -/
theorem isForeign_of_not_isLower {c : Char} (hfold : simpleFold c = c) (hlower : c.isLower = false)
    (hquote : c ∉ ['[', '\x60']) : isForeign c = true := by
  have hheads : ∀ k ∈ ruleWords, k.head?.all Char.isLower = true := by decide +kernel
  have hmark : isMark c = false := by
    refine Bool.eq_false_iff.2 fun h => ?_
    rcases isMark_iff.1 h with rfl | rfl | hx
    · exact hquote (by decide)
    · exact hquote (by decide)
    · rw [hfold] at hx
      subst hx
      exact absurd hlower (by decide)
  rw [isForeign, hmark, Bool.not_false, Bool.true_and, List.all_eq_true]
  intro k hk
  rw [hfold, bne_iff_ne]
  intro hhead
  have hk := hheads k hk
  rw [hhead, Option.all_some, hlower] at hk
  exact Bool.noConfusion hk

theorem neutral_of_foreign {t : Text} (h : ∀ c ∈ t, isForeign c = true) : Neutral t := by
  simp only [isForeign, Bool.and_eq_true, Bool.not_eq_true', List.all_eq_true, bne_iff_ne] at h
  refine ⟨fun w hw k hk hbegins => ?_, fun c hc => (h c hc).1⟩
  obtain ⟨x, k, rfl⟩ := List.exists_cons_of_ne_nil (ruleWords_labels _ hk).1
  obtain ⟨s, hs⟩ := hbegins
  cases w with
  | nil => exact absurd hs (by simp)
  | cons c w =>
    have hc := Text.mem_of_mem_cut hw List.mem_cons_self
    have hx : x = simpleFold c := (List.cons.inj hs).1
    exact (h c hc.1).2 _ hk (congrArg some hx)

theorem neutral_nil : Neutral [] := neutral_of_foreign fun _ hc => absurd hc List.not_mem_nil

namespace Neutral

variable {a b t u v w : Text}

/-! ## Neutral texts put together -/

theorem append (ha : Neutral a) (hb : Neutral b) (h : Text.Parted a b) : Neutral (a ++ b) := by
  refine ⟨fun w hw => ?_, fun c hc => ?_⟩
  · exact (Text.mem_runs_append h hw).elim (ha.words w) (hb.words w)
  · exact (List.mem_append.1 hc).elim (ha.marks c) (hb.marks c)

theorem separated {sep : Text} (ha : Neutral a) (hs : Neutral sep)
    (hsep : Text.isParting sep = true) (hb : Neutral b) : Neutral (a ++ sep ++ b) :=
  (ha.append hs (Text.parted_of_isParting (b := b) hsep).1).append hb
    (Text.parted_of_isParting hsep).2

theorem join {sep : Text} (hs : Neutral sep) (hsep : Text.isParting sep = true) {ts : List Text}
    (h : ∀ t ∈ ts, Neutral t) : Neutral (Text.join sep ts) := by
  induction ts with
  | nil => exact neutral_nil
  | cons t ts ih =>
    have ht := h t List.mem_cons_self
    by_cases hts : ts = []
    · subst hts
      exact ht
    · rw [Text.join_cons _ _ hts]
      exact ht.separated hs hsep (ih fun u hu => h u (List.mem_cons_of_mem t hu))

/-- Collapsing a text leaves its words as they are. -/
theorem collapse (h : Neutral t) : Neutral (Text.collapse t) := by
  have hspace : Neutral [' '] := neutral_of_foreign fun c hc =>
    List.mem_singleton.1 hc ▸ isForeign_of_not_isLower (by decide) (by decide) (by decide)
  refine join hspace (by decide) fun w hw => ?_
  exact ⟨fun r hr => h.words r (Text.mem_runs_of_mem_words hw hr),
    fun c hc => h.marks c (Text.mem_of_mem_words hw hc)⟩

end Neutral

/-! ## Rules and neutral texts -/

namespace Neutral

variable {t u v s : Text}

/-- At no place where a word may begin a neutral text goes on as a match does. -/
theorem not_begins (h : Neutral (v ++ (u ++ s))) (hv : v.getLast?.any isWordChar = false)
    {k : Text} (hk : k ∈ ruleWords) : ¬ k <+: u.map simpleFold := by
  intro hbegins
  obtain ⟨x, ⟨y, rfl⟩, rfl⟩ := List.prefix_map_iff.1 hbegins
  have hx : ∀ c ∈ x, isWordChar c = true := fun c hc =>
    isWordChar_of_isLabelChar_simpleFold ((ruleWords_labels _ hk).2 _ (List.mem_map_of_mem hc))
  obtain ⟨r, hr⟩ := Text.exists_run hv hx (y ++ s)
  rw [← List.append_assoc x] at hr
  refine h.words _ hr _ hk ?_
  rw [List.map_append]
  exact List.prefix_append _ _

/-- A match that begins with a word of the rules stands where a word may begin. -/
theorem matchAt?_eq_none {p : Pattern} (h : Neutral (v ++ t)) (hheads : headsAreWords p = true)
    (hplace : ∀ c, t.head? = some c → isWordChar c = true →
      (∀ a, p.beginsAt a = true → a.holds v.getLast? t = true) →
        v.getLast?.any isWordChar = false) : p.matchAt? v.getLast? t = none := by
  cases hm : p.matchAt? v.getLast? t with
  | none => rfl
  | some m =>
    have hof := Pattern.isOf_of_matchAt? hm
    obtain ⟨x, hx, hbegins⟩ := Pattern.exists_head hof.spells
    have hword := List.contains_iff_mem.1 (List.all_eq_true.1 hheads x hx)
    obtain ⟨hne, hlabels⟩ := ruleWords_labels _ hword
    rw [← hof.text_append] at h
    refine absurd hbegins.starts (h.not_begins ?_ hword)
    obtain ⟨y, k, hk⟩ := List.exists_cons_of_ne_nil hne
    obtain ⟨c, r, hc⟩ := List.exists_cons_of_ne_nil hof.text_ne
    obtain ⟨s, hs⟩ := hbegins.starts
    rw [hk, hc] at hs
    have hy : y = simpleFold c := (List.cons.inj hs).1
    refine hplace c (by rw [← hof.text_append, hc]; rfl) ?_ hof.holds
    refine isWordChar_of_isLabelChar_simpleFold (hlabels _ ?_)
    rw [hk, ← hy]
    exact List.mem_cons_self

/-- **No rule finds anything in a neutral text.** -/
theorem applyTo {r : TextRule} (h : Neutral t) (hr : r ∈ clauseRules) : r.applyTo t = t := by
  refine Pattern.replaceAll_eq_self _ fun v w ht => ?_
  subst ht
  rcases headsAreWords_or_asks r hr with ⟨hedge, hheads⟩ | hasks
  · refine h.matchAt?_eq_none hheads fun c hc hword hholds => ?_
    have hplace := hholds .wordEdge hedge
    rw [Anchor.holds, hc, Option.any_some, hword] at hplace
    simpa using hplace
  · cases hm : r.pattern.matchAt? v.getLast? w with
    | none => rfl
    | some m =>
      have hof := Pattern.isOf_of_matchAt? hm
      obtain ⟨c, hc, k, hk, hhas⟩ := Pattern.exists_asked hasks hof.spells
      have hmark : isMark c = true :=
        List.any_eq_true.2 ⟨k, List.contains_iff_mem.1 hk, hhas⟩
      have hnone := h.marks c (List.mem_append_right v (hof.mem_of_mem_text hc))
      rw [hmark] at hnone
      exact Bool.noConfusion hnone

/-- There is no count at the start of a neutral text. -/
theorem topCount (h : Neutral t) : Sybase.topCount.matchAt? none t = none := by
  exact matchAt?_eq_none (v := []) h (by decide +kernel) fun _ _ _ _ => rfl

end Neutral

end SqlScribe
