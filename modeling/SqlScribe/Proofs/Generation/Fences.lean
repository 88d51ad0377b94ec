import SqlScribe.Proofs.Generation.Cleaning

/-!
# Fenced statements

An answer in which a query stands in a block, with text around the block and the name of a language
behind the first fence. The name is taken as the longest run of letters there, whatever these belong
to, so the first word of a query can be lost with it and the end of a name can be kept. Main
statements:

* `unfenced_block`: what a block holds, when no fence begins in front of it;
* `IsQuery.clean_of_unfenced`, `IsQuery.clean_ne_of_lt`, `IsQuery.clean_ne_of_head`: what becomes of
  a query when all of it, less, or something else in front of it is the content;
* `clean_fenced_iff`: in which layouts a query in a block is left alone.
-/

namespace SqlScribe

namespace Completion

open Pattern Text

variable {t u v before tag gap s after raw : Text}

/-! ## Where a fence begins -/

/-- What is missing from a fence behind its first mark. -/
def lastMarks : Text := "\x60\x60"

/-- No fence begins in the text, not even one that is ended by marks behind it. -/
def NoFence (t : Text) : Prop := ¬ fenceMarks <:+: t ++ lastMarks

theorem noFence_of_not_mem (h : '\x60' ∉ t) : NoFence t := by
  intro hin
  have hcount := hin.sublist.count_le '\x60'
  rw [List.count_append, List.count_eq_zero_of_not_mem h] at hcount
  exact absurd hcount (by decide)

/-- A text without a fence and one in which none begins, with another character between them. -/
theorem noFence_append_cons {c : Char} (hu : ¬ fenceMarks <:+: u) (hc : c ≠ '\x60')
    (hv : NoFence v) :
    NoFence (u ++ c :: v) := by
  intro hin
  rw [List.append_assoc, List.cons_append] at hin
  refine (infix_append_cons (fun hmem => hc ?_) hin).elim hu hv
  simpa [fenceMarks] using hmem

/-- In a text without a fence none begins, unless with the marks it ends in. -/
theorem noFence_of_getLast? (h : ¬ fenceMarks <:+: t) (hl : t.getLast? ≠ some '\x60') :
    NoFence t := by
  rcases List.eq_nil_or_concat t with rfl | ⟨u, c, rfl⟩
  · exact noFence_of_not_mem List.not_mem_nil
  · rw [List.concat_eq_append] at h hl ⊢
    refine noFence_append_cons (fun hin => h (hin.trans (List.prefix_append _ _).isInfix)) ?_
      (noFence_of_not_mem List.not_mem_nil)
    rintro rfl
    exact hl (by simp)

/-- In front of a fence no other one begins in the same text. -/
theorem not_prefix_of_noFence {r : Text} (hu : NoFence (u ++ t)) (ht : t ≠ []) :
    ¬ fenceMarks <+: t ++ (fenceMarks ++ r) := by
  intro hprefix
  have hmarks : t ++ lastMarks <+: t ++ (fenceMarks ++ r) :=
    ⟨'\x60' :: r, by simp [fenceMarks, lastMarks]⟩
  have hlength : fenceMarks.length ≤ (t ++ lastMarks).length := by
    rw [List.length_append]
    exact Nat.add_le_add_right (List.length_pos_of_ne_nil ht) 2
  obtain ⟨e, he⟩ := List.prefix_of_prefix_length_le hprefix hmarks hlength
  exact hu ⟨u, e, by rw [List.append_assoc, he, List.append_assoc]⟩

/-! ## What a block holds -/

/-- An answer with a statement in a block, and the name of a language in front of it. -/
def fenced (before tag gap s after : Text) : Text :=
  before ++ (fenceMarks ++ (tag ++ (gap ++ (s ++ (fenceMarks ++ after)))))

/-- The letters a name of a language is made of. -/
theorem has_letters (c : Char) :
    (CharClass.either (.span 'a' 'z') (.span 'A' 'Z')).has c = c.isAlpha := by
  have hspan : ∀ a b : Char, (CharClass.span a b).has c = true ↔
      a.toNat ≤ c.toNat ∧ c.toNat ≤ b.toNat := by
    intro a b
    rw [CharClass.has, Bool.and_eq_true, decide_eq_true_eq, decide_eq_true_eq]
    exact and_congr UInt32.le_iff_toNat_le UInt32.le_iff_toNat_le
  rw [Bool.eq_iff_iff, isAlpha_iff, isUpper_iff, isLower_iff, CharClass.has, Bool.or_eq_true, hspan,
    hspan]
  exact or_comm

theorem first_block {b : Option Char} (htag : ∀ c ∈ tag, c.isAlpha = true)
    (hgap : ∀ c ∈ gap, isBlank c = true) (hs : NoFence s)
    (hend : ∀ c, (gap ++ (s ++ (fenceMarks ++ after))).head? = some c → c.isAlpha = false)
    (hstart : ∀ c, (s ++ (fenceMarks ++ after)).head? = some c → isBlank c = false) :
    ∃ d, CompletionPattern.block.first
      ⟨b, fenceMarks ++ (tag ++ (gap ++ (s ++ (fenceMarks ++ after)))), []⟩ some =
        some ⟨d, after, [⟨1, s ++ (fenceMarks ++ after), fenceMarks ++ after⟩]⟩ := by
  have hfence : CompletionPattern.fence = literal fenceMarks := rfl
  simp only [CompletionPattern.block, hfence, first_append, first_group]
  rw [first_literal, first_run_append (fun c hc => (has_letters c).trans (htag c hc))
    (fun c hc => (has_letters c).trans (hend c hc)), first_blanks_append hgap hstart]
  refine ⟨_, first_lazyStar (fun _ _ => rfl) (fun v w hvw hw => ?_)
    (first_literal fenceMarks after)⟩
  have hnot : ¬ fenceMarks <+: w ++ (fenceMarks ++ after) := not_prefix_of_noFence (hvw ▸ hs) hw
  exact (first_literal_eq fenceMarks _).trans
    (if_neg fun h => hnot (List.isPrefixOf_iff_prefix.1 h))

/-- A block is found where its first fence stands, and ends with the first fence behind that. -/
theorem unfenced_block (hbefore : NoFence before) (htag : ∀ c ∈ tag, c.isAlpha = true)
    (hgap : ∀ c ∈ gap, isBlank c = true) (hs : NoFence s)
    (hend : ∀ c, (gap ++ (s ++ (fenceMarks ++ after))).head? = some c → c.isAlpha = false)
    (hstart : ∀ c, (s ++ (fenceMarks ++ after)).head? = some c → isBlank c = false) :
    unfenced (fenced before tag gap s after) = trim s := by
  obtain ⟨d, hd⟩ := first_block (b := before.getLast?) htag hgap hs hend hstart
  have hsplit : fenceMarks ++ (tag ++ (gap ++ (s ++ (fenceMarks ++ after)))) =
      fenceMarks ++ (tag ++ (gap ++ (s ++ fenceMarks))) ++ after := by simp
  have hfind : CompletionPattern.block.find? (fenced before tag gap s after) =
      some ⟨before.getLast?, fenceMarks ++ (tag ++ (gap ++ (s ++ fenceMarks))),
        [(1, s)], after⟩ := by
    refine find?_eq_some_iff.2 ⟨before, _, rfl, ?_, fun a x r ha => ?_⟩
    · rw [hsplit] at hd ⊢
      rw [matchAt?_of_first hd (by simp [fenceMarks]), List.map_singleton, text_capture]
    · -- a match begins with a fence, and none begins so early
      refine Option.eq_none_iff_forall_ne_some.2 fun m hm => ?_
      have hof := isOf_of_matchAt? hm
      obtain ⟨_, y₄, htext, ⟨_, y₃, rfl, ⟨_, y₂, rfl, ⟨f, y₁, rfl, hf, -⟩, -⟩, -⟩, -⟩ := hof.spells
      obtain rfl : f = fenceMarks := spells_literal.1 hf
      have hprefix : fenceMarks <+:
          x :: r ++ (fenceMarks ++ (tag ++ (gap ++ (s ++ (fenceMarks ++ after))))) := by
        rw [← hof.text_append, htext]
        exact ⟨y₁ ++ (y₂ ++ (y₃ ++ (y₄ ++ m.after))), by simp⟩
      exact not_prefix_of_noFence (ha ▸ hbefore) (List.cons_ne_nil x r) hprefix
  rw [unfenced, hfind]
  rfl

/-! ## What is left of a block -/

/-- Nothing is added to what a block holds. -/
theorem statementIn_sublist (raw : Text) : (statementIn raw).Sublist (unfenced raw.trim) := by
  refine (List.takeWhile_sublist _).trans ?_
  rcases label_cases (unfenced raw.trim) with ⟨l, r, ht, hl⟩ | ht
  · rw [ht, unlabelled_label hl]
    exact (List.dropWhile_sublist _).trans (List.sublist_append_right l r)
  · rw [unlabelled_of_not ht]

/-- What is left of an answer is the normal form of a statement exactly if it has the same words. -/
theorem clean_eq_normalize_iff (hsemicolon : ';' ∉ s) (hwords : words s ≠ []) :
    clean raw = Statement.normalize s ↔ words (statementIn raw) = words s := by
  rw [Statement.normalize_of_single hsemicolon]
  by_cases hnil : words (statementIn raw) = []
  · rw [clean_of_blank hnil, hnil]
    exact ⟨fun h => absurd h (by simp), fun h => absurd h.symm hwords⟩
  · rw [clean_of_words hnil, List.append_left_inj]
    constructor
    · intro h
      rw [← words_collapse, h, words_collapse]
    · intro h
      rw [collapse, collapse, h]

/-- A label that a text begins with, and no blank, begins with its letters. -/
theorem IsLabel.exists_letters {l r : Text} (h : IsLabel l)
    (hhead : ∀ c, (l ++ r).head? = some c → isBlank c = false) :
    ∃ g r', l ++ r = g ++ r' ∧ SameLetters g "sql" := by
  obtain ⟨e, g, e', rfl, he, hg, -⟩ := h
  cases e with
  | nil => exact ⟨g, e' ++ [':'] ++ r, by simp, hg⟩
  | cons c e => exact absurd (he c List.mem_cons_self) (by simp [hhead c rfl])

/-- What begins with another letter than `s` and no blank has no label. -/
theorem unlabelled_of_head {c : Char} (hblank : isBlank c = false) (hc : simpleFold c ≠ 's') :
    unlabelled (c :: t) = c :: t := by
  refine unlabelled_of_not fun l r hlr hl => ?_
  obtain ⟨g, r', hg, hletters⟩ := hl.exists_letters (r := r) fun d hd => by
    rw [← hlr] at hd
    exact Option.some.inj hd ▸ hblank
  rw [← hlr] at hg
  cases g with
  | nil => exact absurd hletters (by decide)
  | cons d g =>
    obtain ⟨rfl, -⟩ := List.cons.inj hg
    exact hc (List.cons.inj hletters).1

/-! ## A query in a block -/

theorem simpleFold_of_isAlpha {c : Char} (h : c.isAlpha = true) : simpleFold c = c.toLower :=
  simpleFold_of_class (p := Char.isAlpha) (by decide) (by decide) h

theorem simpleFold_ne_of_not_isAlpha {c : Char} (h : c.isAlpha = false) (hlong : c ≠ 'ſ') :
    simpleFold c ≠ 's' := by
  rw [simpleFold, if_neg (by simpa using hlong)]
  split
  · decide
  · have hupper : c.isUpper = false := Bool.eq_false_iff.2 fun hc =>
      Bool.false_ne_true (h.symm.trans (isAlpha_iff.2 (Or.inl hc)))
    rw [toLower_of_not_isUpper hupper]
    rintro rfl
    exact absurd h (by decide)

/-- A statement that begins with `SELECT` and a blank, without a semicolon and without a mark of a
fence. -/
structure IsQuery (s : Text) : Prop where
  begins : ∃ w b r, s = w ++ b :: r ∧ asciiUpper w = "SELECT" ∧ isBlank b = true
  quiet : '\x60' ∉ s
  single : ';' ∉ s

/-- A name of a language as it may stand behind a fence. It holds no long s, with which a label
might begin. -/
def IsTag (t : Text) : Prop := ∀ c ∈ t, isBlank c = false ∧ c ≠ '\x60' ∧ c ≠ 'ſ'

instance (t : Text) : Decidable (IsTag t) := decidableForall t

namespace IsQuery

variable {w : Text}

theorem isAlpha_of_mem (hw : asciiUpper w = "SELECT") : ∀ c ∈ w, c.isAlpha = true := by
  intro c hc
  have hmem : c.toUpper ∈ "SELECT".toList := hw ▸ List.mem_map_of_mem hc
  have hupper : ∀ d ∈ "SELECT".toList, d.isUpper = true := by decide
  exact isAlpha_of_isUpper_toUpper (hupper _ hmem)

theorem exists_letters (hw : asciiUpper w = "SELECT") :
    ∃ x y v, w = x :: y :: v ∧ x.toUpper = 'S' ∧ y.toUpper = 'E' := by
  match w, hw with
  | [], hw | [_], hw => exact absurd hw (by simp [asciiUpper])
  | x :: y :: v, hw =>
    obtain ⟨hx, hv⟩ := List.cons.inj hw
    exact ⟨x, y, v, rfl, hx, (List.cons.inj hv).1⟩

/-- The first letter. -/
theorem head?_eq (h : IsQuery s) : ∃ x, s.head? = some x ∧ x.toUpper = 'S' ∧ isBlank x = false := by
  obtain ⟨w, b, r, rfl, hw, -⟩ := h.begins
  obtain ⟨x, y, v, rfl, hx, -⟩ := exists_letters hw
  exact ⟨x, rfl, hx, isBlank_of_isAlpha (isAlpha_of_mem hw x List.mem_cons_self)⟩

theorem words_ne_nil (h : IsQuery s) : words s ≠ [] := by
  obtain ⟨x, hx, -, hblank⟩ := h.head?_eq
  intro hnil
  exact Bool.false_ne_true (hblank.symm.trans (words_eq_nil_iff.1 hnil x (List.mem_of_head? hx)))

theorem head?_ink (h : IsQuery s) : (ink s).head? = some 'S' := by
  obtain ⟨x, hx, hupper, hblank⟩ := h.head?_eq
  cases s with
  | nil => exact absurd hx (by simp)
  | cons y s =>
    obtain rfl := Option.some.inj hx
    rw [ink, List.filter_cons_of_pos (by simp [hblank])]
    exact congrArg some hupper

/-- A query has no label. -/
theorem unlabelled_trim (h : IsQuery s) : unlabelled (trim s) = trim s := by
  refine unlabelled_of_not fun l r hlr hl => ?_
  obtain ⟨g, r', hg, hletters⟩ := hl.exists_letters (r := r) fun c hc => head?_trim (hlr ▸ hc)
  obtain ⟨w, b, u, rfl, hw, -⟩ := h.begins
  have hblank : ∀ c ∈ w, isBlank c = false :=
    fun c hc => isBlank_of_isAlpha (isAlpha_of_mem hw c hc)
  have hne : w ≠ [] := by
    rintro rfl
    exact absurd hw (by decide)
  obtain ⟨e, he⟩ := prefix_trim (List.prefix_append w (b :: u)) hne
    (fun c hc => hblank c (List.mem_of_head? hc)) fun c hc => hblank c (List.mem_of_getLast? hc)
  obtain ⟨x, y, v, rfl, -, hy⟩ := exists_letters hw
  rw [← hlr, ← he] at hg
  match g, hletters with
  | [], hletters => exact absurd hletters (by decide)
  | [_], hletters => exact absurd hletters (by simp [SameLetters])
  | x' :: y' :: g, hletters =>
    -- the second letter would be a `q`
    obtain ⟨-, hrest⟩ := List.cons.inj hg
    obtain ⟨rfl, -⟩ := List.cons.inj hrest
    have hq : simpleFold y = simpleFold 'q' := (List.cons.inj (List.cons.inj hletters).2).1
    rw [simpleFold_of_isAlpha (isAlpha_of_mem hw y (by simp)), ← toLower_toUpper, hy] at hq
    exact absurd hq (by decide)

end IsQuery

/-! ## What becomes of the query -/

theorem IsQuery.clean_of_unfenced (hs : IsQuery s) (h : unfenced raw.trim = trim s) :
    clean raw = Statement.normalize s := by
  have hsemicolon : ';' ∉ trim s := fun hmem => hs.single (mem_of_mem_trim hmem)
  rw [clean_eq_normalize_iff hs.single hs.words_ne_nil, statementIn, h, hs.unlabelled_trim,
    firstStatement_eq_self hsemicolon, words_trim]

/-- A query is damaged where less is left than it is written with. -/
theorem IsQuery.clean_ne_of_lt (hs : IsQuery s) (h : unfenced raw.trim = trim t)
    (hlt : (ink t).length < (ink s).length) : clean raw ≠ Statement.normalize s := by
  rw [Ne, clean_eq_normalize_iff hs.single hs.words_ne_nil]
  intro hwords
  have hsub : (ink (statementIn raw)).Sublist (ink (trim t)) :=
    ((h ▸ statementIn_sublist raw).filter _).map _
  rw [ink_congr hwords, ink_trim] at hsub
  exact absurd hsub.length_le (Nat.not_le.2 hlt)

/-- A query is damaged where a character is left in front of it that is no letter. -/
theorem IsQuery.clean_ne_of_head {x : Char} (hs : IsQuery s) (h : unfenced raw.trim = trim (x :: t))
    (hblank : isBlank x = false) (hx : x.isAlpha = false) (hlong : x ≠ 'ſ') :
    clean raw ≠ Statement.normalize s := by
  rw [Ne, clean_eq_normalize_iff hs.single hs.words_ne_nil]
  intro hwords
  obtain ⟨u, hu⟩ : [x] <+: trim (x :: t) :=
    prefix_trim (List.prefix_append [x] t) (List.cons_ne_nil x [])
      (fun c hc => Option.some.inj hc ▸ hblank) fun c hc => Option.some.inj hc ▸ hblank
  have hhead : (ink (statementIn raw)).head? = some 'S' := ink_congr hwords ▸ hs.head?_ink
  rw [statementIn, h, ← hu, List.singleton_append,
    unlabelled_of_head hblank (simpleFold_ne_of_not_isAlpha hx hlong), firstStatement] at hhead
  by_cases hsemicolon : x = ';'
  · subst hsemicolon
    exact absurd hhead (by simp [ink, asciiUpper])
  · rw [List.takeWhile_cons_of_pos (by simpa using hsemicolon), ink,
      List.filter_cons_of_pos (by simp [hblank])] at hhead
    have hupper : x.toUpper = 'S' := Option.some.inj hhead
    exact Bool.false_ne_true (hx.symm.trans (isAlpha_of_isUpper_toUpper (hupper ▸ by decide)))

/-! ## Layouts of a block -/

theorem trim_fenced (before tag gap s after : Text) : trim (fenced before tag gap s after) =
    fenced (trimStart before) tag gap s (trimEnd after) := by
  have hmark : isBlank '\x60' = false := by decide
  have htrim := trim_append (a := before) (m := fenceMarks ++ (tag ++ (gap ++ (s ++ fenceMarks))))
    (e := after) (by simp [fenceMarks]) (fun c hc => Option.some.inj hc ▸ hmark) fun c hc => by
      simp only [← List.append_assoc] at hc
      rw [List.getLast?_append_of_ne_nil _ (by simp [fenceMarks])] at hc
      exact Option.some.inj hc ▸ hmark
  simpa only [fenced, List.append_assoc] using htrim

/-- Behind a name of letters and blanks the whole query is the content. -/
theorem IsQuery.unfenced_fenced (hs : IsQuery s) (after : Text) (hbefore : NoFence before)
    (htag : ∀ c ∈ tag, c.isAlpha = true) (hgap : ∀ c ∈ gap, isBlank c = true) (hne : gap ≠ []) :
    unfenced (fenced before tag gap s after) = trim s := by
  obtain ⟨x, hx, -, hblank⟩ := hs.head?_eq
  have hstart : ∀ r c, (s ++ r).head? = some c → isBlank c = false := by
    intro r c hc
    rw [List.head?_append, hx] at hc
    exact Option.some.inj hc ▸ hblank
  refine unfenced_block hbefore htag hgap (noFence_of_not_mem hs.quiet) (fun c hc => ?_) (hstart _)
  rw [List.head?_append_of_ne_nil gap hne] at hc
  refine Bool.eq_false_iff.2 fun halpha => Bool.false_ne_true ?_
  rw [← isBlank_of_isAlpha halpha]
  exact hgap c (List.mem_of_head? hc)

/-- Without blanks behind a name of letters the first word of the query belongs to the name. -/
theorem IsQuery.unfenced_fenced_nil (hs : IsQuery s) (after : Text) (hbefore : NoFence before)
    (htag : ∀ c ∈ tag, c.isAlpha = true) :
    ∃ t, unfenced (fenced before tag [] s after) = trim t ∧ (ink t).length < (ink s).length := by
  have hquiet := hs.quiet
  obtain ⟨w, b, r, rfl, hw, hb⟩ := hs.begins
  refine ⟨trimStart (b :: r), ?_, ?_⟩
  · have hsplit : fenced before tag [] (w ++ b :: r) after =
        fenced before (tag ++ w) ((b :: r).takeWhile isBlank) (trimStart (b :: r)) after := by
      rw [fenced, fenced, trimStart, ← List.append_assoc (List.takeWhile _ _),
        List.takeWhile_append_dropWhile]
      simp
    have hrest : '\x60' ∉ trimStart (b :: r) := fun hmem =>
      hquiet (List.mem_append_right w (List.dropWhile_subset _ hmem))
    rw [hsplit]
    refine unfenced_block hbefore (List.forall_mem_append.2 ⟨htag, IsQuery.isAlpha_of_mem hw⟩)
      (List.all_eq_true.1 List.all_takeWhile) (noFence_of_not_mem hrest) (fun c hc => ?_)
      fun c hc => ?_
    · rw [← List.append_assoc, trimStart, List.takeWhile_append_dropWhile] at hc
      obtain rfl := Option.some.inj hc
      refine Bool.eq_false_iff.2 fun halpha => Bool.false_ne_true ?_
      rw [← isBlank_of_isAlpha halpha, hb]
    · rw [List.head?_append] at hc
      cases hhead : (trimStart (b :: r)).head? with
      | none =>
        rw [hhead] at hc
        obtain rfl := Option.some.inj hc
        decide
      | some d =>
        rw [hhead] at hc
        exact Option.some.inj hc ▸ not_of_head?_dropWhile hhead
  · have hletters : 0 < (ink w).length := by
      obtain ⟨x, y, v, rfl, -⟩ := IsQuery.exists_letters hw
      have hblank := isBlank_of_isAlpha (IsQuery.isAlpha_of_mem hw x List.mem_cons_self)
      rw [ink, List.filter_cons_of_pos (by simp [hblank])]
      exact Nat.succ_pos _
    rw [ink_congr (words_trimStart (b :: r)), ink_append, List.length_append]
    omega

theorem mark_not_mem (hgap : ∀ c ∈ gap, isBlank c = true) (hs : '\x60' ∉ s) :
    '\x60' ∉ gap ++ s := by
  rw [List.mem_append, not_or]
  exact ⟨fun hmem => absurd (hgap _ hmem) (by decide), hs⟩

/-- Of a name in which something else than a letter stands the rest is left in front of the
query. -/
theorem IsQuery.unfenced_fenced_name (hs : IsQuery s) (after : Text) (hbefore : NoFence before)
    (htag : IsTag tag) (hgap : ∀ c ∈ gap, isBlank c = true) (hname : ∃ c ∈ tag, c.isAlpha = false) :
    ∃ x t, unfenced (fenced before tag gap s after) = trim (x :: t) ∧ isBlank x = false ∧
      x.isAlpha = false ∧ x ≠ 'ſ' := by
  obtain ⟨c, hc, hother⟩ := hname
  obtain ⟨x, r, hx⟩ : ∃ x r, tag.dropWhile Char.isAlpha = x :: r := by
    refine List.exists_cons_of_ne_nil fun hnil => ?_
    exact Bool.false_ne_true (hother.symm.trans (List.dropWhile_eq_nil_iff.1 hnil c hc))
  have hxalpha : x.isAlpha = false := not_of_head?_dropWhile (by rw [hx]; rfl)
  have hsub : ∀ d ∈ x :: r, d ∈ tag := fun d hd => List.dropWhile_subset Char.isAlpha (hx ▸ hd)
  obtain ⟨hxblank, -, hxlong⟩ := htag x (hsub x List.mem_cons_self)
  refine ⟨x, r ++ (gap ++ s), ?_, hxblank, hxalpha, hxlong⟩
  have hsplit : fenced before tag gap s after =
      fenced before (tag.takeWhile Char.isAlpha) [] (x :: (r ++ (gap ++ s))) after := by
    conv_lhs => rw [fenced, ← List.takeWhile_append_dropWhile (p := Char.isAlpha) (l := tag), hx]
    simp [fenced]
  rw [hsplit]
  refine unfenced_block hbefore (List.all_eq_true.1 List.all_takeWhile) (by simp) ?_
    (fun c hc => Option.some.inj hc ▸ hxalpha) fun c hc => Option.some.inj hc ▸ hxblank
  refine noFence_of_not_mem fun hmem => ?_
  rw [← List.cons_append] at hmem
  rcases List.mem_append.1 hmem with hmem | hmem
  · exact (htag _ (hsub _ hmem)).2.1 rfl
  · exact mark_not_mem hgap hs.quiet hmem

/-- Marks in front of the fence begin it, and the last marks of the fence are left in front of the
query. -/
theorem IsQuery.unfenced_fenced_marks (hs : IsQuery s) (after : Text)
    (hbefore : ¬ fenceMarks <:+: before) (hlast : before.getLast? = some '\x60') (htag : IsTag tag)
    (hgap : ∀ c ∈ gap, isBlank c = true) :
    ∃ t, unfenced (fenced before tag gap s after) = trim ('\x60' :: t) := by
  obtain ⟨e, he, hmarks⟩ := dropEnd_append_ending (· == '\x60') before
  have hfront : NoFence (dropEnd (· == '\x60') before) := by
    refine noFence_of_getLast? (fun hin => hbefore ?_) fun hc =>
      absurd (getLast?_dropEnd hc) (by simp)
    exact hin.trans ⟨[], e, by rw [List.nil_append, ← he]⟩
  have hreplicate : e = List.replicate e.length '\x60' :=
    List.eq_replicate_iff.2 ⟨rfl, fun c hc => eq_of_beq (hmarks c hc)⟩
  have hcomm : e ++ fenceMarks = fenceMarks ++ e := by
    have hthree : fenceMarks = List.replicate 3 '\x60' := rfl
    rw [hreplicate, hthree, List.replicate_append_replicate, List.replicate_append_replicate,
      Nat.add_comm]
  have hquiet : '\x60' ∉ tag ++ (gap ++ s) := by
    rw [List.mem_append, not_or]
    exact ⟨fun hmem => (htag _ hmem).2.1 rfl, mark_not_mem hgap hs.quiet⟩
  have hcontent : NoFence (e ++ (tag ++ (gap ++ s))) := by
    obtain ⟨x, hx, -⟩ := hs.head?_eq
    obtain ⟨c, v, hcv⟩ : ∃ c v, tag ++ (gap ++ s) = c :: v := by
      refine List.exists_cons_of_ne_nil fun hnil => ?_
      rw [(List.append_eq_nil_iff.1 (List.append_eq_nil_iff.1 hnil).2).2] at hx
      exact absurd hx (by simp)
    rw [hcv, List.mem_cons, not_or] at hquiet
    rw [hcv]
    refine noFence_append_cons (fun hin => hbefore ?_) (Ne.symm hquiet.1)
      (noFence_of_not_mem hquiet.2)
    exact hin.trans ⟨dropEnd (· == '\x60') before, [], by rw [List.append_nil, ← he]⟩
  obtain ⟨e', rfl⟩ : ∃ e', e = '\x60' :: e' := by
    cases e with
    | nil =>
      rw [List.append_nil] at he
      exact absurd (getLast?_dropEnd (he ▸ hlast)) (by simp)
    | cons c e' => exact ⟨e', by rw [eq_of_beq (hmarks c List.mem_cons_self)]⟩
  have hsplit : fenced before tag gap s after =
      fenced (dropEnd (· == '\x60') before) [] [] ('\x60' :: e' ++ (tag ++ (gap ++ s))) after := by
    conv_lhs => rw [fenced, he, List.append_assoc, ← List.append_assoc ('\x60' :: e'), hcomm]
    simp [fenced]
  refine ⟨e' ++ (tag ++ (gap ++ s)), ?_⟩
  rw [hsplit]
  exact unfenced_block hfront (by simp) (by simp) hcontent
    (fun c hc => Option.some.inj hc ▸ by decide) fun c hc => Option.some.inj hc ▸ by decide

/-- **Where a block leaves a query alone.** Whatever stands around the block, with no fence in front
of it: the query is brought to normal form and nothing else, exactly if the text in front of the
fence does not end in a mark of a fence, the name of the language is made of letters, and a blank
follows it. A query directly behind the fence loses its first word. -/
theorem clean_fenced_iff (hbefore : ¬ fenceMarks <:+: before) (htag : IsTag tag)
    (hgap : ∀ c ∈ gap, isBlank c = true) (hs : IsQuery s) (after : Text) :
    clean (fenced before tag gap s after) = Statement.normalize s ↔
      before.getLast? ≠ some '\x60' ∧ (∀ c ∈ tag, c.isAlpha = true) ∧ gap ≠ [] := by
  have hstart : ¬ fenceMarks <:+: trimStart before := fun hin =>
    hbefore (hin.trans (List.dropWhile_suffix isBlank).isInfix)
  have hlast : (trimStart before).getLast? = some '\x60' ↔ before.getLast? = some '\x60' :=
    getLast?_trimStart (by decide)
  by_cases hmarks : before.getLast? = some '\x60'
  · obtain ⟨t, ht⟩ := hs.unfenced_fenced_marks (trimEnd after) hstart (hlast.2 hmarks) htag hgap
    rw [← trim_fenced] at ht
    exact iff_of_false (hs.clean_ne_of_head ht (by decide) (by decide) (by decide))
      fun h => h.1 hmarks
  have hfront : NoFence (trimStart before) := noFence_of_getLast? hstart fun h => hmarks (hlast.1 h)
  by_cases hletters : ∀ c ∈ tag, c.isAlpha = true
  · by_cases hnil : gap = []
    · subst hnil
      obtain ⟨t, ht, hlt⟩ := hs.unfenced_fenced_nil (trimEnd after) hfront hletters
      rw [← trim_fenced] at ht
      exact iff_of_false (hs.clean_ne_of_lt ht hlt) fun h => h.2.2 rfl
    · have ht := hs.unfenced_fenced (trimEnd after) hfront hletters hgap hnil
      rw [← trim_fenced] at ht
      exact iff_of_true (hs.clean_of_unfenced ht) ⟨hmarks, hletters, hnil⟩
  · have hname : ∃ c ∈ tag, c.isAlpha = false := by simpa using hletters
    obtain ⟨x, t, ht, hblank, hother, hlong⟩ :=
      hs.unfenced_fenced_name (trimEnd after) hfront htag hgap hname
    rw [← trim_fenced] at ht
    exact iff_of_false (hs.clean_ne_of_head ht hblank hother hlong) fun h => hletters h.2.1

/-- A query on a line of its own, behind the name of a language. -/
theorem clean_fenced_lines :
    ¬ fenceMarks <:+: "Here you are:\n".toList ∧ IsTag "sql" ∧
      (∀ c ∈ "\n".toList, isBlank c = true) ∧
      IsQuery "SELECT name\nFROM employees\n" ∧
      clean (fenced "Here you are:\n" "sql" "\n" "SELECT name\nFROM employees\n" "\nAnything else?")
      = "SELECT name FROM employees;".toList := by
  have hbefore : ¬ fenceMarks <:+: "Here you are:\n".toList := by decide
  have htag : IsTag "sql" := by decide
  have hgap : ∀ c ∈ "\n".toList, isBlank c = true := by decide
  have hquery : IsQuery "SELECT name\nFROM employees\n" :=
    ⟨⟨"SELECT", ' ', "name\nFROM employees\n", rfl, by decide, by decide⟩, by decide, by decide⟩
  refine ⟨hbefore, htag, hgap, hquery, ?_⟩
  rw [(clean_fenced_iff hbefore htag hgap hquery _).2 ⟨by decide, by decide, by decide⟩]
  decide +kernel

/-- Directly behind the fence a query is damaged. -/
theorem not_clean_fenced :
    ¬ ∀ s, IsQuery s → clean (fenced [] [] [] s []) = Statement.normalize s := by
  intro h
  have hquery : IsQuery "SELECT name FROM employees" :=
    ⟨⟨"SELECT", ' ', "name FROM employees", rfl, by decide, by decide⟩, by decide, by decide⟩
  exact absurd (h _ hquery) (by decide +kernel)

end Completion

end SqlScribe
