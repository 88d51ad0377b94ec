import SqlScribe.Generation.Completion
import SqlScribe.Proofs.Pattern.Choice
import SqlScribe.Proofs.Pattern.Elastic
import SqlScribe.Proofs.Statement.NormalForm
import SqlScribe.Proofs.Text.Words

/-!
# Cleaning completions

What is left of the answer of a model. A label ends in a colon, so it is found in what stands in
front of the first semicolon or not at all; blanks at the ends of an answer belong to no word. Hence
without a fence nothing behind the first semicolon counts. Main statements:

* `unfenced_of_no_fence`: without a fence the whole answer counts;
* `unlabelled_append_semicolon`, `words_unlabelled_append`: what a label does not reach;
* `words_statementIn`: the words that are left of an answer without a fence;
* `clean_single`: what is left is one statement at most, and the first one decides which.
-/

namespace SqlScribe

namespace Completion

open Pattern Text

variable {t u v e l r : Text}

/-! ## Fences -/

/-- The three backticks that open and close a block. -/
def fenceMarks : Text := "\x60\x60\x60"

theorem unfenced_of_no_fence (h : ¬ fenceMarks <:+: t) : unfenced t = t := by
  have hnil : CompletionPattern.block.findAll t = [] := by
    refine List.eq_nil_iff_forall_not_mem.2 fun m hm => h ?_
    obtain ⟨v, w, rfl, hof⟩ := isOf_of_mem_findAll hm
    obtain ⟨x, f, htext, -, hf⟩ := hof.spells
    obtain rfl : f = fenceMarks := spells_literal.1 hf
    rw [← hof.text_append, htext]
    exact ⟨v ++ x, m.after, by simp⟩
  rw [unfenced, find?, hnil]
  rfl

/-! ## Labels -/

/-- A label up to its colon, with the blanks in front of it. -/
def IsLabel (l : Text) : Prop :=
  ∃ e g e', l = e ++ (g ++ (e' ++ [':'])) ∧ (∀ c ∈ e, isBlank c = true) ∧ SameLetters g "sql" ∧
    ∀ c ∈ e', isBlank c = true

theorem IsLabel.getLast? (h : IsLabel l) : l.getLast? = some ':' := by
  obtain ⟨e, g, e', rfl, -⟩ := h
  simp

theorem IsLabel.semicolon_not_mem (h : IsLabel l) : ';' ∉ l := by
  obtain ⟨e, g, e', rfl, he, hg, he'⟩ := h
  have hletters : ';' ∉ g := by
    intro hmem
    have hfold : simpleFold ';' ∈ g.map simpleFold := List.mem_map_of_mem hmem
    rw [hg] at hfold
    exact absurd hfold (by decide)
  have hblank : isBlank ';' = false := by decide
  simp only [List.mem_append, not_or]
  refine ⟨fun hmem => ?_, hletters, fun hmem => ?_, by decide⟩
  · exact Bool.false_ne_true (hblank.symm.trans (he _ hmem))
  · exact Bool.false_ne_true (hblank.symm.trans (he' _ hmem))

theorem isBlank_head_of_sameLetters {g : Text} (hg : SameLetters g "sql") :
    ∀ c, (g ++ r).head? = some c → isBlank c = false := by
  intro c hc
  cases g with
  | nil => exact absurd hg (by decide)
  | cons x g =>
    obtain rfl : x = c := Option.some.inj hc
    obtain ⟨hx, -⟩ := List.cons.inj hg
    rw [← Pattern.Elastic.isBlank_simpleFold, hx]
    decide

/-- A label is taken with the blanks behind it. -/
theorem matchAt?_label (h : IsLabel l) (he : ∀ c ∈ e, isBlank c = true)
    (hr : ∀ c, r.head? = some c → isBlank c = false) :
    ∃ gs, CompletionPattern.label.matchAt? none (l ++ e ++ r) = some ⟨none, l ++ e, gs, r⟩ := by
  obtain ⟨e₁, g, e₂, rfl, he₁, hg, he₂⟩ := h
  have hcolon : ∀ c, ([':'] ++ (e ++ r)).head? = some c → isBlank c = false := by
    intro c hc
    obtain rfl := Option.some.inj hc
    decide
  have hfirst : ∃ b, first CompletionPattern.label
      ⟨none, e₁ ++ (g ++ (e₂ ++ ([':'] ++ (e ++ r)))), []⟩
      some = some ⟨b, r, []⟩ := by
    have hliteral : literal ":" = literal [':'] := rfl
    simp only [CompletionPattern.label, first_append, hliteral]
    rw [first_textStart, first_blanks_append he₁ (isBlank_head_of_sameLetters hg), first_letters hg,
      first_blanks_append he₂ hcolon, first_literal, first_blanks_append he hr]
    exact ⟨_, rfl⟩
  obtain ⟨b, hb⟩ := hfirst
  refine ⟨[], ?_⟩
  have hsplit : e₁ ++ (g ++ (e₂ ++ ([':'] ++ (e ++ r))))
      = e₁ ++ (g ++ (e₂ ++ [':'])) ++ e ++ r := by
    simp
  rw [hsplit] at hb
  exact matchAt?_of_first hb (by simp)

/-- A label goes, and the blanks behind it. -/
theorem unlabelled_label (h : IsLabel l) (r : Text) : unlabelled (l ++ r) = trimStart r := by
  obtain ⟨gs, hmatch⟩ := matchAt?_label (e := r.takeWhile isBlank) (r := trimStart r) h
    (List.all_eq_true.1 List.all_takeWhile) fun c hc => not_of_head?_dropWhile hc
  have hsplit : l ++ r.takeWhile isBlank ++ trimStart r = l ++ r := by
    rw [List.append_assoc, trimStart, List.takeWhile_append_dropWhile]
  rw [hsplit] at hmatch
  rw [unlabelled, hmatch]

/-- Without a label in front the whole text stays. -/
theorem unlabelled_of_not (h : ∀ l r, t = l ++ r → ¬ IsLabel l) : unlabelled t = t := by
  have hnone : CompletionPattern.label.matchAt? none t = none := by
    by_contra hne
    obtain ⟨m, hm⟩ := Option.ne_none_iff_exists'.1 hne
    have hof := isOf_of_matchAt? hm
    obtain ⟨_, e₃, htext, ⟨_, o, rfl, ⟨_, e₂, rfl, ⟨_, g, rfl, ⟨a, e₁, rfl, ha, he₁⟩, hg⟩, he₂⟩,
      ho⟩, -⟩ := hof.spells
    obtain rfl : a = [] := ha
    obtain rfl : o = [':'] := spells_literal.1 ho
    refine h (e₁ ++ (g ++ (e₂ ++ [':']))) (e₃ ++ m.after) ?_
      ⟨e₁, g, e₂, rfl, he₁, spells_letters.1 hg, he₂⟩
    rw [← hof.text_append, htext]
    simp
  rw [unlabelled, hnone]

/-- A text begins with a label or not. -/
theorem label_cases (t : Text) :
    (∃ l r, t = l ++ r ∧ IsLabel l) ∨ ∀ l r, t = l ++ r → ¬ IsLabel l := by
  by_cases h : ∃ l r, t = l ++ r ∧ IsLabel l
  · exact Or.inl h
  · exact Or.inr fun l r ht hl => h ⟨l, r, ht, hl⟩

/-- A label that does not reach the text put behind another is one of that other text. -/
theorem unlabelled_append (h : ∀ l r, l ++ r = u ++ v → IsLabel l → l <+: u) :
    (∃ r, unlabelled u = trimStart r ∧ unlabelled (u ++ v) = trimStart (r ++ v)) ∨
      (unlabelled u = u ∧ unlabelled (u ++ v) = u ++ v) := by
  rcases label_cases u with ⟨l, r, rfl, hl⟩ | hu
  · refine Or.inl ⟨r, unlabelled_label hl r, ?_⟩
    rw [List.append_assoc]
    exact unlabelled_label hl (r ++ v)
  · refine Or.inr ⟨unlabelled_of_not hu, unlabelled_of_not fun l r hlr hl => ?_⟩
    obtain ⟨s, hs⟩ := h l r hlr.symm hl
    exact hu l s hs.symm hl

/-- A semicolon and what follows it stay behind what a label leaves. -/
theorem unlabelled_append_semicolon (u v : Text) :
    unlabelled (u ++ ';' :: v) = unlabelled u ++ ';' :: v := by
  have hreach : ∀ l r, l ++ r = u ++ ';' :: v → IsLabel l → l <+: u := by
    intro l r hlr hl
    rcases List.append_eq_append_iff.1 hlr with ⟨s, hs, -⟩ | ⟨s, hs, hv⟩
    · exact ⟨s, hs.symm⟩
    · cases s with
      | nil => exact ⟨[], by rw [hs, List.append_nil, List.append_nil]⟩
      | cons c s =>
        obtain ⟨rfl, -⟩ := List.cons.inj hv
        exact absurd (hs ▸ List.mem_append_right u List.mem_cons_self) hl.semicolon_not_mem
  rcases unlabelled_append hreach with ⟨r, hr, hrv⟩ | ⟨hr, hrv⟩
  · rw [hr, hrv]
    exact trimStart_append_of_head (fun c hc => by obtain rfl := Option.some.inj hc; decide) r
  · rw [hr, hrv]

/-- Blanks at the end of a text are in no word of what a label leaves. -/
theorem words_unlabelled_append (he : ∀ c ∈ e, isBlank c = true) (u : Text) :
    words (unlabelled (u ++ e)) = words (unlabelled u) := by
  have hwords : ∀ t : Text, words (t ++ e) = words t := by
    intro t
    rw [words_append_of_head fun c hc => he c (List.mem_of_mem_head? hc), words_eq_nil_iff.2 he,
      List.append_nil]
  have hreach : ∀ l r, l ++ r = u ++ e → IsLabel l → l <+: u := by
    intro l r hlr hl
    rcases List.append_eq_append_iff.1 hlr with ⟨s, hs, -⟩ | ⟨s, hs, hv⟩
    · exact ⟨s, hs.symm⟩
    · by_cases hnil : s = []
      · exact ⟨[], by rw [hs, hnil, List.append_nil, List.append_nil]⟩
      · -- the colon would be one of the blanks
        have hlast : s.getLast? = some ':' := by
          rw [← hl.getLast?, hs, List.getLast?_append_of_ne_nil _ hnil]
        have hmem : ':' ∈ e := hv ▸ List.mem_append_left r (List.mem_of_getLast? hlast)
        exact absurd (he _ hmem) (by decide)
  rcases unlabelled_append hreach with ⟨r, hr, hrv⟩ | ⟨hr, hrv⟩
  · rw [hr, hrv, words_trimStart, words_trimStart, hwords]
  · rw [hr, hrv, hwords]

/-- Nothing is added in front of a statement. -/
theorem mem_of_mem_unlabelled {c : Char} (h : c ∈ unlabelled t) : c ∈ t := by
  rcases label_cases t with ⟨l, r, rfl, hl⟩ | ht
  · rw [unlabelled_label hl] at h
    exact List.mem_append_right l (List.dropWhile_subset _ h)
  · rwa [unlabelled_of_not ht] at h

/-! ## The first statement -/

theorem firstStatement_append_semicolon (hu : ';' ∉ u) (v : Text) :
    firstStatement (u ++ ';' :: v) = u := by
  refine takeWhile_append_of_head (fun c hc => bne_iff_ne.2 ?_) fun c hc => ?_
  · rintro rfl
    exact hu hc
  · obtain rfl := Option.some.inj hc
    decide

theorem firstStatement_eq_self (hu : ';' ∉ u) : firstStatement u = u := by
  refine List.takeWhile_eq_self_iff.2 fun c hc => bne_iff_ne.2 ?_
  rintro rfl
  exact hu hc

theorem semicolon_not_mem_firstStatement (t : Text) : ';' ∉ firstStatement t := by
  intro h
  exact absurd (List.mem_takeWhile_imp h) (by decide)

/-- A text is its first statement, or goes on behind it with a semicolon. -/
theorem firstStatement_cases (t : Text) :
    (';' ∉ t ∧ firstStatement t = t) ∨ ∃ u v, t = u ++ ';' :: v ∧ ';' ∉ u ∧
      firstStatement t = u := by
  by_cases h : ';' ∈ t
  · obtain ⟨u, v, rfl, hu⟩ := List.eq_append_cons_of_mem h
    exact Or.inr ⟨u, v, rfl, hu, firstStatement_append_semicolon hu v⟩
  · exact Or.inl ⟨h, firstStatement_eq_self h⟩

/-- What follows a semicolon does not belong to the first statement. -/
theorem firstStatement_append (a b : Text) : firstStatement (a ++ ';' :: b) = firstStatement a := by
  rcases firstStatement_cases a with ⟨ha, hself⟩ | ⟨u, v, rfl, hu, hfirst⟩
  · rw [hself, firstStatement_append_semicolon ha]
  · rw [hfirst, List.append_assoc, List.cons_append, firstStatement_append_semicolon hu]

/-! ## Cleaning -/

/-- The statement in a completion as it stands there. -/
def statementIn (raw : Text) : Text := firstStatement (unlabelled (unfenced raw.trim))

/-- Of an answer without a fence the words count that stand in front of the first semicolon, but for
a label. -/
theorem words_statementIn {raw : Text} (h : ¬ fenceMarks <:+: raw) :
    words (statementIn raw) = words (unlabelled (trimStart (firstStatement raw))) := by
  have htrim : ¬ fenceMarks <:+: raw.trim := by
    obtain ⟨a, e, ht, -⟩ := exists_trim raw
    rintro hin
    refine h (hin.trans ⟨a, e, ?_⟩)
    rw [List.append_assoc, ← ht]
  rw [statementIn, unfenced_of_no_fence htrim]
  rcases firstStatement_cases raw with ⟨hraw, hself⟩ | ⟨u, v, rfl, hu, hfirst⟩
  · obtain ⟨e, he, hblank⟩ : ∃ e, trimStart raw = trim raw ++ e ∧ ∀ c ∈ e, isBlank c = true :=
      dropEnd_append_ending isBlank (trimStart raw)
    have hnone : ';' ∉ unlabelled raw.trim := fun hmem =>
      hraw (mem_of_mem_trim (mem_of_mem_unlabelled hmem))
    rw [firstStatement_eq_self hnone, hself, he, words_unlabelled_append hblank]
  · have hstart : trimStart (u ++ ';' :: v) = trimStart u ++ ';' :: v :=
      trimStart_append_of_head (fun c hc => by obtain rfl := Option.some.inj hc; decide) u
    have hstays : trimStart u ++ [';'] <+: trim (u ++ ';' :: v) := by
      refine prefix_dropEnd ⟨v, ?_⟩ fun c hc => ?_
      · rw [hstart, List.append_assoc, List.singleton_append]
      · rw [List.getLast?_concat] at hc
        obtain rfl := Option.some.inj hc
        decide
    obtain ⟨w, hw⟩ := hstays
    have hnone : ';' ∉ trimStart u := fun hmem => hu (List.dropWhile_subset _ hmem)
    rw [← hw, List.append_assoc, List.singleton_append, unlabelled_append_semicolon,
      firstStatement_append_semicolon fun hmem => hnone (mem_of_mem_unlabelled hmem), hfirst]

theorem isAllBlank_iff : t.isAllBlank = true ↔ words t = [] := by
  rw [isAllBlank, List.all_eq_true, words_eq_nil_iff]

theorem clean_of_blank {raw : Text} (h : words (statementIn raw) = []) : clean raw = [] :=
  if_pos (isAllBlank_iff.2 h)

theorem clean_of_words {raw : Text} (h : words (statementIn raw) ≠ []) :
    clean raw = collapse (statementIn raw) ++ [';'] := by
  have hclean : clean raw = Statement.normalize (statementIn raw) :=
    if_neg fun hblank => h (isAllBlank_iff.1 hblank)
  have hsemicolon : ';' ∉ statementIn raw := semicolon_not_mem_firstStatement _
  rw [hclean, Statement.normalize_of_single hsemicolon]

/-- What is left of an answer depends on the words of the statement in it. -/
theorem clean_congr {raw raw' : Text} (h : words (statementIn raw) = words (statementIn raw')) :
    clean raw = clean raw' := by
  by_cases hnil : words (statementIn raw) = []
  · rw [clean_of_blank hnil, clean_of_blank (h ▸ hnil)]
  · rw [clean_of_words hnil, clean_of_words (h ▸ hnil), collapse, collapse, h]

/-- **One statement at most.** Of any answer nothing is left, when the statement in it has no words,
or these words with single spaces between them and one semicolon behind. Without a fence, what
follows the first semicolon has no influence. -/
theorem clean_single :
    (∀ raw, (words (statementIn raw) = [] ∧ clean raw = []) ∨
      ∃ body, clean raw = body ++ [';'] ∧ ';' ∉ body ∧ words body ≠ [] ∧
        words body = words (statementIn raw) ∧ SingleSpaced (clean raw)) ∧
    ∀ a b, ¬ fenceMarks <:+: a → ¬ fenceMarks <:+: b → clean (a ++ ';' :: b) = clean a := by
  constructor
  · intro raw
    by_cases hnil : words (statementIn raw) = []
    · exact Or.inl ⟨hnil, clean_of_blank hnil⟩
    · have hclean := clean_of_words hnil
      refine Or.inr ⟨collapse (statementIn raw), hclean, fun hmem => ?_, ?_, words_collapse _, ?_⟩
      · exact (mem_collapse hmem).elim (by decide) (semicolon_not_mem_firstStatement _)
      · rwa [words_collapse]
      · rw [hclean]
        exact (singleSpaced_collapse _).concat (by decide)
  · intro a b ha hb
    have hab : ¬ fenceMarks <:+: a ++ ';' :: b := fun h =>
      (infix_append_cons (by decide) h).elim ha hb
    refine clean_congr ?_
    rw [words_statementIn hab, words_statementIn ha, firstStatement_append]

theorem clean_single_second :
    (¬ fenceMarks <:+: " sql:\tSELECT 1 ; ".toList ∧ ¬ fenceMarks <:+: " DROP TABLE t;".toList) ∧
      clean (" sql:\tSELECT 1 ; ".toList ++ ';' :: " DROP TABLE t;".toList)
        = "SELECT 1;".toList := by
  have ha : ¬ fenceMarks <:+: " sql:\tSELECT 1 ; ".toList := by decide
  have hb : ¬ fenceMarks <:+: " DROP TABLE t;".toList := by decide
  refine ⟨⟨ha, hb⟩, ?_⟩
  rw [clean_single.2 _ _ ha hb]
  decide +kernel

end Completion

end SqlScribe
