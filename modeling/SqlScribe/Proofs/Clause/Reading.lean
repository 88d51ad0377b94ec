import SqlScribe.Proofs.Clause.Order
import SqlScribe.Proofs.Clause.RoundTrip
import SqlScribe.Proofs.Text.Words

/-!
# Outlines that can be read back

An outline that is written and scanned again keeps its clauses exactly when each body is
read over by itself: nothing in it opens a later clause, and the reader comes out of it
outside of quotations and parentheses. Main statements:

* `split_cases`: a text is read over up to the first place where a clause opens;
* `opens?_append_space`: what a body opens does not depend on the clause behind it;
* `ink_clausesOf`, `ink_written`: clauses hold the ink of the text they are cut from, and of the
  text that is written for them;
* `scan_render_iff`: an outline is read back if and only if it is settled.
-/

namespace SqlScribe

/-- The clause with its body collapsed. -/
def Clause.collapsed (c : Clause) : Clause := ⟨c.kind, Text.collapse c.body⟩

/-! ## Keywords and what stands behind a body -/

/-- The text begins with the word of a clause. -/
def BeginsClause (t : Text) : Prop := ∃ k : ClauseKind, k ≠ .leading ∧ ∃ r, t = k.word ++ r

theorem BeginsClause.head {t : Text} (h : BeginsClause t) :
    ∃ c r, t = c :: r ∧ isIdentifierChar c = true := by
  obtain ⟨k, hk, r, rfl⟩ := h
  obtain ⟨c, w, hw, hc⟩ := k.word_cons (Nat.ne_of_gt (ClauseKind.rank_pos hk))
  exact ⟨c, w ++ r, by rw [hw]; rfl, hc⟩

theorem BeginsClause.head_not_blank {t : Text} (h : BeginsClause t) :
    ∀ c, t.head? = some c → isBlank c = false := by
  obtain ⟨d, r, rfl, hd⟩ := h.head
  intro c hc
  obtain rfl := Option.some.inj hc
  exact isBlank_of_isIdentifierChar hd

namespace Keyword

/-- What a word takes from a text: letters of the word, and blanks for its spaces. -/
theorem taken_of_after? {w t r : Text} (h : after? w t = some r) :
    ∃ u, t = u ++ r ∧ w.length ≤ u.length ∧
      ∀ c ∈ u, (c.toUpper ∈ w ∧ c.toUpper ≠ ' ') ∨ isBlank c = true := by
  induction w generalizing t with
  | nil => exact ⟨[], Option.some.inj h, Nat.le_refl 0, fun c hc => absurd hc List.not_mem_nil⟩
  | cons e w ih =>
    have hcons : ∀ u : Text, (∀ c ∈ u, (c.toUpper ∈ w ∧ c.toUpper ≠ ' ') ∨ isBlank c = true) →
        ∀ c ∈ u, (c.toUpper ∈ e :: w ∧ c.toUpper ≠ ' ') ∨ isBlank c = true :=
      fun u hu c hc => (hu c hc).imp_left fun h => ⟨List.mem_cons_of_mem e h.1, h.2⟩
    cases t with
    | nil => exact absurd h (by simp [after?])
    | cons c t =>
      rw [after?] at h
      split at h
      · split at h
        · next hblank =>
          obtain ⟨u, hu, hlength, hall⟩ := ih h
          refine ⟨c :: (t.takeWhile isBlank ++ u), ?_, ?_, fun d hd => ?_⟩
          · rw [List.cons_append, List.append_assoc, ← hu, List.takeWhile_append_dropWhile]
          · simp only [List.length_cons, List.length_append]
            omega
          · rcases List.mem_cons.1 hd with rfl | hd
            · exact Or.inr hblank
            · rcases List.mem_append.1 hd with hd | hd
              · exact Or.inr (List.all_eq_true.1 List.all_takeWhile d hd)
              · exact hcons u hall d hd
        · exact absurd h (by simp)
      · next he =>
        split at h
        · next hc =>
          obtain ⟨u, rfl, hlength, hall⟩ := ih h
          obtain rfl : e = c.toUpper := eq_of_beq hc
          refine ⟨c :: u, rfl, by simpa using hlength, fun d hd => ?_⟩
          rcases List.mem_cons.1 hd with rfl | hd
          · exact Or.inl ⟨List.mem_cons_self, by simpa using he⟩
          · exact hcons u hall d hd
        · exact absurd h (by simp)

/-- What stands behind a space in a word is not empty and is not found at the start of
`rest`. -/
def StopsBefore (rest w : Text) : Prop :=
  ∀ s ∈ w.tails, s.head? = some ' ' → s.tail ≠ [] ∧ after? s.tail rest = none

/-- A word is not found across the space between a text and `rest`, so `rest` does not
matter to whether it is found. -/
theorem after?_append_space {rest w : Text} (hw : StopsBefore rest w)
    (hrest : ∀ c, rest.head? = some c → isBlank c = false) (v : Text) :
    after? w (v ++ ' ' :: rest) = (after? w (v ++ [' '])).map (· ++ rest) ∧
      after? w (v ++ [' ']) ≠ some [] := by
  induction w generalizing v with
  | nil => exact ⟨by simp [after?], by simp [after?]⟩
  | cons e w ih =>
    have htail : StopsBefore rest w := fun s hs =>
      hw s (by rw [List.tails]; exact List.mem_cons_of_mem _ hs)
    have hdrop : rest.dropWhile isBlank = rest := by
      cases rest with
      | nil => rfl
      | cons c r => exact List.dropWhile_cons_of_neg (by simp [hrest c rfl])
    by_cases he : e = ' '
    · subst he
      obtain ⟨hne, hnone⟩ : w ≠ [] ∧ after? w rest = none :=
        hw (' ' :: w) (by rw [List.tails]; exact List.mem_cons_self) rfl
      have hend : after? w [] = none := by
        cases w with
        | nil => exact absurd rfl hne
        | cons x w => rfl
      cases v with
      | nil =>
        constructor
        · simp [after?, hdrop, hnone, hend, show isBlank ' ' = true by decide]
        · simp [after?, hend, show isBlank ' ' = true by decide]
      | cons c v =>
        simp only [List.cons_append, after?, beq_self_eq_true, if_true]
        split
        · rw [List.dropWhile_append, List.dropWhile_append, List.dropWhile_cons_of_pos (by decide),
            List.dropWhile_cons_of_pos (by decide), hdrop]
          split
          · exact ⟨by rw [hnone, List.dropWhile_nil, hend]; rfl, by simp [hend]⟩
          · exact ih htail _
        · exact ⟨rfl, by simp⟩
    · have hne : (e == ' ') = false := beq_eq_false_iff_ne.2 he
      cases v with
      | nil => simp [after?, hne]
      | cons c v =>
        simp only [List.cons_append, after?, hne, Bool.false_eq_true, if_false]
        split
        · exact ih htail v
        · exact ⟨rfl, by simp⟩

/-- What a word takes from a text has the ink of the word. -/
theorem ink_of_after? {w t r : Text} (h : after? w t = some r) :
    Text.ink t = Text.ink w ++ Text.ink r := by
  induction w generalizing t with
  | nil =>
    obtain rfl := Option.some.inj h
    rfl
  | cons e w ih =>
    cases t with
    | nil => exact absurd h (by simp [after?])
    | cons c t =>
      rw [Text.ink_cons c, Text.ink_cons e]
      rw [after?] at h
      split at h
      · next he =>
        obtain rfl := eq_of_beq he
        split at h
        · next hblank =>
          have hrun : Text.ink (t.takeWhile isBlank) = [] :=
            Text.ink_of_blank fun d hd => List.all_eq_true.1 List.all_takeWhile d hd
          rw [Text.ink_of_blank (t := [c]) (by simpa using hblank),
            Text.ink_of_blank (t := [' ']) (by decide), List.nil_append, List.nil_append, ← ih h]
          conv_lhs => rw [← List.takeWhile_append_dropWhile (p := isBlank) (l := t)]
          rw [Text.ink_append, hrun, List.nil_append]
        · exact absurd h (by simp)
      · split at h
        · next hc =>
          obtain rfl : e = c.toUpper := eq_of_beq hc
          rw [ih h, Text.ink_toUpper, List.append_assoc]
        · exact absurd h (by simp)

theorem length?_eq_some_iff {k : Keyword} {before : Option Char} {t : Text} {n : Nat} :
    k.length? before t = some n ↔ mayStartAfter before = true ∧
      ∃ d r, after? k.word t = some (d :: r) ∧ k.accepts d = true ∧
        n = t.length - (d :: r).length := by
  rw [length?]
  split
  · next hstart =>
    simp only [hstart, true_and]
    split
    · next d r hafter =>
      split
      · next hacc =>
        constructor
        · intro h
          exact ⟨d, r, hafter, hacc, (Option.some.inj h).symm⟩
        · rintro ⟨d', r', hafter', -, rfl⟩
          rw [Option.some.inj (hafter'.symm.trans hafter)]
      · next hacc =>
        refine ⟨fun h => absurd h (by simp), ?_⟩
        rintro ⟨d', r', hafter', hacc', -⟩
        obtain ⟨rfl, -⟩ := List.cons.inj (Option.some.inj (hafter'.symm.trans hafter))
        exact absurd hacc' hacc
    · next hnone =>
      refine ⟨fun h => absurd h (by simp), ?_⟩
      rintro ⟨d, r, hafter, -⟩
      exact absurd hafter (hnone d r)
  · next hstart => simp [hstart]

end Keyword

theorem BeginsClause.stopsBefore {rest : Text} (h : BeginsClause rest) (k : ClauseKind) :
    Keyword.StopsBefore rest k.word := by
  have hby : Keyword.after? "BY" rest = none := by
    obtain ⟨l, hl, r, rfl⟩ := h
    cases l with
    | leading => exact absurd rfl hl
    | _ => rfl
  have hspace : ∀ s ∈ k.word.tails, s.head? = some ' ' → s = " BY".toList := by
    cases k <;> decide
  intro s hs hhead
  obtain rfl := hspace s hs hhead
  exact ⟨by decide, hby⟩

/-- The word of a clause is made of capitals and spaces. -/
theorem ClauseKind.word_letters (k : ClauseKind) :
    (k.word.all fun c => c == ' ' || c.isUpper) = true := by
  cases k <;> decide

theorem ClauseKind.length?_append_space {rest : Text} (h : BeginsClause rest) (k : ClauseKind)
    (before : Option Char) (v : Text) :
    k.keyword.length? before (v ++ ' ' :: rest) = k.keyword.length? before (v ++ [' ']) := by
  obtain ⟨hmap, hne⟩ := Keyword.after?_append_space (h.stopsBefore k) h.head_not_blank v
  rw [← keyword_word] at hmap hne
  unfold Keyword.length?
  rw [hmap]
  cases hafter : Keyword.after? k.keyword.word (v ++ [' ']) with
  | none => rfl
  | some r =>
    cases r with
    | nil => exact absurd hafter hne
    | cons c r =>
      have hlength : (v ++ ' ' :: rest).length - (c :: (r ++ rest)).length
          = (v ++ [' ']).length - (c :: r).length := by
        simp only [List.length_append, List.length_cons, List.length_nil]
        omega
      simp only [Option.map_some, List.cons_append, hlength]

/-- An identifier at which the reader is at the top level begins at the top level. -/
theorem Nesting.eq_top_of_read {n : Nesting} {c : Char} (hc : isIdentifierChar c = true)
    (hclosing : n.closing = none) (htop : (n.read c).isTop = true) : n = .top := by
  obtain ⟨d, closing⟩ := n
  obtain rfl : closing = none := hclosing
  rw [read_of_isIdentifierChar hc] at htop
  have hd : d = 0 := by simpa [Nesting.isTop] using htop
  rw [hd, Nesting.top]

namespace Outline

/-- What opens in a body does not depend on the clause behind it. -/
theorem opens?_append_space {rest : Text} (h : BeginsClause rest) (k : ClauseKind)
    (before : Option Char) (v : Text) :
    opens? k before (v ++ ' ' :: rest) = opens? k before (v ++ [' ']) := by
  simp only [opens?, ClauseKind.length?_append_space h]

/-- Of the character in front only matters whether a keyword may start behind it. -/
theorem opens?_congr {b b' : Option Char} (h : Keyword.mayStartAfter b = Keyword.mayStartAfter b')
    (k : ClauseKind) (t : Text) : opens? k b t = opens? k b' t := by
  simp only [opens?, Keyword.length?, h]

/-! ## Reading over a text -/

/-- No clause later than `k` opens in `t`, read from the nesting `n` with `rest` behind. -/
def Passes (k : ClauseKind) (n : Nesting) (before : Option Char) : (t rest : Text) → Prop
  | [], _ => True
  | c :: t, rest =>
      ((n.read c).isTop = true → n.closing = none → opens? k before (c :: (t ++ rest)) = none) ∧
        Passes k (n.read c) (some c) t rest

/-- The nesting behind a text. -/
def nestingAfter (n : Nesting) (t : Text) : Nesting := t.foldl Nesting.read n

/-- The last character of a text, or the one in front of it. -/
def lastOf (before : Option Char) (t : Text) : Option Char := t.getLast?.or before

@[simp] theorem lastOf_nil (before : Option Char) : lastOf before [] = before := rfl

theorem lastOf_cons (before : Option Char) (c : Char) (t : Text) :
    lastOf before (c :: t) = lastOf (some c) t := by
  rw [lastOf, lastOf, Text.getLast?_cons_or]

theorem lastOf_append (before : Option Char) (t u : Text) :
    lastOf before (t ++ u) = lastOf (lastOf before t) u := by
  rw [lastOf, lastOf, lastOf, List.getLast?_append, Option.or_assoc]

variable {k : ClauseKind} {n : Nesting} {before : Option Char} {t u rest : Text}

/-- What is passed over is the body, or the beginning of it. -/
theorem Passes.split (h : Passes k n before t rest) :
    split k n before 0 (t ++ rest)
      = putFront t (Outline.split k (nestingAfter n t) (lastOf before t) 0 rest) := by
  induction t generalizing n before with
  | nil => rfl
  | cons c t ih =>
    rw [List.cons_append, split_cons h.1, ih h.2, lastOf_cons]
    rfl

theorem Passes.split_nil (h : Passes k n before t []) :
    Outline.split k n before 0 t = (t, []) := by
  have hsplit := h.split
  rw [List.append_nil] at hsplit
  rw [hsplit]
  simp [putFront, Outline.split]

/-- A space, and a clause behind it, change nothing. -/
theorem passes_append_space (hrest : BeginsClause rest) :
    Passes k n before (t ++ [' ']) rest ↔ Passes k n before (t ++ [' ']) [] := by
  induction t generalizing n before with
  | nil =>
    have hspace : ∀ r, opens? k before (' ' :: r) = none :=
      fun r => opens?_eq_none_of_sign r (by decide)
    simp [Passes, hspace]
  | cons c t ih =>
    have hopens := opens?_append_space hrest k before (c :: t)
    simp only [List.cons_append] at hopens
    simp only [List.cons_append, Passes, ih, List.append_assoc, List.append_nil,
      List.nil_append, hopens]

theorem passes_spaced (hrest : BeginsClause rest) (b : Text) :
    Passes k n before (Text.spaced b) rest ↔ Passes k n before (Text.spaced b) [] := by
  by_cases hb : Text.words b = []
  · rw [Text.spaced_eq_nil hb]
    exact Iff.rfl
  · rw [Text.spaced_eq hb]
    exact passes_append_space hrest

/-- **Up to the first opening.** No clause opens in a text, or it is passed over up to a
place where one does, which lies outside of quotations and parentheses. -/
theorem split_cases (k : ClauseKind) (n : Nesting) (before : Option Char) (t : Text) :
    Passes k n before t [] ∨ ∃ u v kind length, t = u ++ v ∧ Passes k n before u v ∧
      (nestingAfter n u).closing = none ∧
      (∀ c, v.head? = some c → ((nestingAfter n u).read c).isTop = true) ∧
      opens? k (lastOf before u) v = some (kind, length) := by
  induction t generalizing n before with
  | nil => exact Or.inl trivial
  | cons c t ih =>
    by_cases hopen : (n.read c).isTop = true ∧ n.closing = none ∧
        opens? k before (c :: t) ≠ none
    · obtain ⟨htop, hclosing, hne⟩ := hopen
      obtain ⟨x, hx⟩ := Option.ne_none_iff_exists'.1 hne
      refine Or.inr ⟨[], c :: t, x.1, x.2, rfl, trivial, hclosing, fun d hd => ?_, hx⟩
      obtain rfl := Option.some.inj hd
      exact htop
    · have hnone : (n.read c).isTop = true → n.closing = none →
          opens? k before (c :: t) = none := by
        intro htop hclosing
        by_contra hne
        exact hopen ⟨htop, hclosing, hne⟩
      rcases ih (n.read c) (some c) with hpass | ⟨u, v, kind, length, rfl, hpass, hcl, htop, hx⟩
      · refine Or.inl ⟨?_, hpass⟩
        rw [List.append_nil]
        exact hnone
      · refine Or.inr ⟨c :: u, v, kind, length, rfl, ⟨hnone, hpass⟩, hcl, htop, ?_⟩
        rw [lastOf_cons]
        exact hx

/-! ## Writing clauses -/

/-- The clauses as they are written, with single spaces for layout. -/
def written (cs : List Clause) : Text := Text.collapse (Text.join [' '] (cs.map writeClause))

theorem written_eq (cs : List Clause) :
    written cs = Text.join [' '] (cs.flatMap fun c => Text.words (writeClause c)) := by
  rw [written, Text.collapse, Text.words_join_spaces, List.flatMap_map]

theorem words_writeClause {c : Clause} (h : c.kind ≠ .leading) :
    Text.words (writeClause c) = Text.words c.kind.word ++ Text.words c.body := by
  rw [writeClause_eq h, Text.words_append_cons (by decide)]

theorem collapse_word (k : ClauseKind) : Text.collapse k.word = k.word := by
  cases k <;> decide

theorem words_word_ne_nil {k : ClauseKind} (h : k ≠ .leading) : Text.words k.word ≠ [] := by
  cases k with
  | leading => exact absurd rfl h
  | _ => decide

theorem spaced_word {k : ClauseKind} (h : k ≠ .leading) : Text.spaced k.word = k.word ++ [' '] := by
  rw [Text.spaced_eq (words_word_ne_nil h), collapse_word]

variable {c : Clause} {cs : List Clause}

theorem words_ne_nil_of_kinds (hcs : cs ≠ []) (hkinds : ∀ c ∈ cs, c.kind ≠ .leading) :
    (cs.flatMap fun c => Text.words (writeClause c)) ≠ [] := by
  obtain ⟨c, cs, rfl⟩ := List.exists_cons_of_ne_nil hcs
  have hc := hkinds c List.mem_cons_self
  rw [List.flatMap_cons, words_writeClause hc]
  exact List.append_ne_nil_of_left_ne_nil
    (List.append_ne_nil_of_left_ne_nil (words_word_ne_nil hc) _) _

/-- A clause is written as its word and its body in front of the others. -/
theorem written_cons (hc : c.kind ≠ .leading) (hcs : cs ≠ [])
    (hkinds : ∀ c ∈ cs, c.kind ≠ .leading) :
    written (c :: cs) = c.kind.word ++ ' ' :: (Text.spaced c.body ++ written cs) := by
  rw [written_eq, List.flatMap_cons, words_writeClause hc, written_eq cs,
    Text.join_append_words (words_ne_nil_of_kinds hcs hkinds), List.flatMap_append]
  have hword := spaced_word hc
  rw [Text.spaced] at hword
  rw [hword, Text.spaced]
  simp only [List.append_assoc, List.cons_append, List.nil_append]

theorem written_leading_cons (hc : c.kind = .leading) (hcs : cs ≠ [])
    (hkinds : ∀ c ∈ cs, c.kind ≠ .leading) :
    written (c :: cs) = Text.spaced c.body ++ written cs := by
  have hwrite : writeClause c = c.body := by rw [writeClause, hc]
  rw [written_eq, List.flatMap_cons, hwrite, written_eq cs,
    Text.join_append_words (words_ne_nil_of_kinds hcs hkinds), Text.spaced]

/-- The last clause is written as its word and its body. -/
theorem written_singleton (hc : c.kind ≠ .leading) (hb : Text.words c.body ≠ []) :
    written [c] = c.kind.word ++ ' ' :: Text.collapse c.body := by
  rw [written_eq, List.flatMap_singleton, words_writeClause hc, Text.join_append_words hb]
  have hword := spaced_word hc
  rw [Text.spaced] at hword
  rw [hword, Text.collapse, List.append_assoc, List.singleton_append]

theorem written_singleton_blank (hc : c.kind ≠ .leading) (hb : Text.words c.body = []) :
    written [c] = c.kind.word := by
  rw [written_eq, List.flatMap_singleton, words_writeClause hc, hb, List.append_nil]
  exact collapse_word c.kind

theorem written_singleton_leading (hc : c.kind = .leading) :
    written [c] = Text.collapse c.body := by
  have hwrite : writeClause c = c.body := by rw [writeClause, hc]
  rw [written, List.map_singleton, hwrite]
  rfl

theorem beginsClause_written (hcs : cs ≠ []) (hkinds : ∀ c ∈ cs, c.kind ≠ .leading) :
    BeginsClause (written cs) := by
  obtain ⟨c, cs, rfl⟩ := List.exists_cons_of_ne_nil hcs
  have hc := hkinds c List.mem_cons_self
  refine ⟨c.kind, hc, ?_⟩
  cases cs with
  | nil =>
    by_cases hb : Text.words c.body = []
    · exact ⟨[], by rw [written_singleton_blank hc hb, List.append_nil]⟩
    · exact ⟨_, written_singleton hc hb⟩
  | cons d cs =>
    exact ⟨_, written_cons hc (List.cons_ne_nil d cs)
      fun x hx => hkinds x (List.mem_cons_of_mem c hx)⟩

/-! ## Reading clauses back -/

theorem trim_space (t : Text) : Text.trim (' ' :: t) = Text.trim t := by
  rw [Text.trim, Text.trimStart, List.dropWhile_cons_of_pos (by decide)]
  rfl

/-- The word of a clause that lies ahead opens it, and what stands behind is read. -/
theorem split_word {kind : ClauseKind} (h : k.rank < kind.rank)
    (hbefore : Keyword.mayStartAfter before = true) (rest : Text) :
    split k .top before 0 (kind.word ++ ' ' :: rest) =
      ([], ⟨kind, Text.trim (split kind .top (some ' ') 0 rest).1⟩ ::
        (split kind .top (some ' ') 0 rest).2) := by
  have hopens := opens?_word h hbefore rest
  obtain ⟨c, w, hw, hc⟩ := kind.word_cons (Nat.ne_of_gt (Nat.zero_lt_of_lt h))
  have hread : Nesting.top.read c = .top := read_of_isIdentifierChar hc 0
  have htop : (Nesting.top.read c).isTop = true := by
    rw [hread]
    rfl
  have hspace : ∀ x, split kind .top x 0 (' ' :: rest)
      = putFront [' '] (split kind .top (some ' ') 0 rest) :=
    fun x => split_cons fun _ _ => opens?_eq_none_of_sign rest (by decide)
  rw [hw, List.cons_append] at hopens
  rw [hw, List.cons_append, split_opening htop rfl hopens, hread, List.length_cons,
    Nat.add_sub_cancel, split_skip, hspace]
  simp only [putFront, List.singleton_append, trim_space]

theorem lastOf_spaced (b : Text) : lastOf (some ' ') (Text.spaced b) = some ' ' := by
  by_cases hb : Text.words b = []
  · rw [Text.spaced_eq_nil hb, lastOf_nil]
  · rw [Text.spaced_eq hb, lastOf, List.getLast?_concat]
    rfl

theorem head_of_opens? {x : ClauseKind × Nat} (h : opens? k before t = some x) :
    ∃ c r, t = c :: r ∧ isIdentifierChar c = true := by
  obtain ⟨-, u, d, v, rfl, hne, hu, -⟩ := reserved_of_opens? h
  obtain ⟨c, u, rfl⟩ := List.exists_cons_of_ne_nil hne
  exact ⟨c, u ++ d :: v, rfl, hu c List.mem_cons_self⟩

/-- A body is found again in front of other clauses exactly when it is passed over and the
reader comes out at the top level, where the others are found. -/
theorem split_body_iff (hcs : cs ≠ []) (hbegins : BeginsClause (written cs)) (k : ClauseKind)
    (b : Text) :
    (Text.words (split k .top (some ' ') 0 (Text.spaced b ++ written cs)).1 = Text.words b ∧
      (split k .top (some ' ') 0 (Text.spaced b ++ written cs)).2.map Clause.collapsed
        = cs.map Clause.collapsed) ↔
    (Passes k .top (some ' ') (Text.spaced b) [] ∧ nestingAfter .top (Text.spaced b) = .top) ∧
      (split k .top (some ' ') 0 (written cs)).1 = [] ∧
      (split k .top (some ' ') 0 (written cs)).2.map Clause.collapsed
        = cs.map Clause.collapsed := by
  constructor
  · rintro ⟨hbody, hrest⟩
    rcases split_cases k .top (some ' ') (Text.spaced b ++ written cs) with
      hpass | ⟨u, v, kind, length, ht, hpass, hclosing, htop, hopens⟩
    · rw [hpass.split_nil] at hrest
      exact absurd (List.map_eq_nil_iff.1 hrest.symm) hcs
    · obtain ⟨c, r, rfl, hc⟩ := head_of_opens? hopens
      have hsplit := hpass.split
      rw [← ht, split_opening (htop c rfl) hclosing hopens] at hsplit
      -- what was read over has the words of the body, so it is the body
      have hu : u = Text.spaced b := by
        refine Text.eq_of_words_eq ht.symm ?_ (fun d hd => ?_) hbegins.head_not_blank
        · rw [Text.words_spaced, ← hbody, hsplit, putFront, List.append_nil]
        · rw [← Option.some.inj hd]
          exact isBlank_of_isIdentifierChar hc
      subst hu
      obtain hv := (List.append_cancel_left ht).symm
      rw [hv] at hpass
      have hnest := Nesting.eq_top_of_read hc hclosing (htop c rfl)
      have hpassed := hpass.split
      rw [hnest, lastOf_spaced] at hpassed
      rw [hpassed] at hrest
      refine ⟨⟨(passes_spaced hbegins b).1 hpass, hnest⟩, ?_, hrest⟩
      rw [← hv, ← lastOf_spaced b, split_opening (n := .top) (hnest ▸ htop c rfl) rfl hopens]
  · rintro ⟨⟨hpass, hnest⟩, hnil, hrest⟩
    have hsplit := ((passes_spaced hbegins b).2 hpass).split
    rw [hnest, lastOf_spaced] at hsplit
    rw [hsplit, putFront, hnil, List.append_nil]
    exact ⟨Text.words_spaced b, hrest⟩

/-! ## Settled clauses -/

/-- A body that holds together in front of another clause: nothing in it opens a later
clause, and the reader comes out of it outside of quotations and parentheses. -/
structure Contained (c : Clause) : Prop where
  /-- In front of `SELECT` nothing is read where nothing is written. -/
  present : c.kind = .leading → Text.words c.body ≠ []
  passes : Passes c.kind .top (some ' ') (Text.spaced c.body) []
  level : nestingAfter .top (Text.spaced c.body) = .top

/-- A body that holds together at the end of a statement. -/
structure Concluded (c : Clause) : Prop where
  present : Text.words c.body ≠ []
  passes : Passes c.kind .top (some ' ') (Text.collapse c.body) []
  /-- A `;` at its end would count as that of the statement. -/
  open_ended : (Text.collapse c.body).getLast? ≠ some ';'

/-- Clauses each of which holds together where it stands. -/
inductive Settled : List Clause → Prop where
  | nil : Settled []
  | last {c : Clause} (h : Concluded c) : Settled [c]
  | cons {c : Clause} {cs : List Clause} (hcs : cs ≠ []) (h : Contained c) (hrest : Settled cs) :
      Settled (c :: cs)

theorem settled_singleton_iff : Settled [c] ↔ Concluded c := by
  constructor
  · intro h
    cases h with
    | last h => exact h
    | cons hcs => exact absurd rfl hcs
  · exact .last

theorem settled_cons_iff (hcs : cs ≠ []) : Settled (c :: cs) ↔ Contained c ∧ Settled cs := by
  constructor
  · intro h
    cases h with
    | last => exact absurd rfl hcs
    | cons _ h hrest => exact ⟨h, hrest⟩
  · exact fun ⟨h, hrest⟩ => .cons hcs h hrest

/-- The last clause is found again exactly when it is passed over. -/
theorem split_last_iff (k : ClauseKind) (t : Text) :
    (Text.words (split k .top (some ' ') 0 t).1 = Text.words t ∧
      (split k .top (some ' ') 0 t).2 = []) ↔ Passes k .top (some ' ') t [] := by
  constructor
  · rintro ⟨-, hnone⟩
    rcases split_cases k .top (some ' ') t with
      hpass | ⟨u, v, kind, length, rfl, hpass, hclosing, htop, hopens⟩
    · exact hpass
    · obtain ⟨c, r, rfl, -⟩ := head_of_opens? hopens
      rw [hpass.split, split_opening (htop c rfl) hclosing hopens] at hnone
      exact absurd hnone (List.cons_ne_nil _ _)
  · intro hpass
    rw [hpass.split_nil]
    exact ⟨rfl, rfl⟩

theorem collapsed_eq_iff {kind : ClauseKind} {t b : Text} :
    (Clause.mk kind (Text.trim t)).collapsed = (Clause.mk kind b).collapsed ↔
      Text.words t = Text.words b := by
  simp only [Clause.collapsed, Clause.mk.injEq, true_and]
  constructor
  · intro h
    rw [← Text.words_trim t, ← Text.words_collapse, h, Text.words_collapse]
  · intro h
    rw [Text.collapse, Text.words_trim, h, Text.collapse]

/-- A word at the end of a text opens no clause. -/
theorem opens?_word_end (k kind : ClauseKind) (before : Option Char) :
    opens? k before kind.word = none := by
  cases hbefore : Keyword.mayStartAfter before with
  | false => exact opens?_eq_none_of_before _ hbefore
  | true =>
    have hstart : opens? k before kind.word = opens? k none kind.word := opens?_congr hbefore k _
    rw [hstart]
    cases kind <;> cases k <;> rfl

/-- Clauses in order are found again exactly when they are settled. -/
theorem split_written_iff {cs : List Clause} (hcs : cs ≠ [])
    (hahead : ∀ c ∈ cs, k.rank < c.kind.rank) (hordered : Ordered cs)
    (hend : (written cs).getLast? ≠ some ';') :
    ((split k .top (some ' ') 0 (written cs)).1 = [] ∧
      (split k .top (some ' ') 0 (written cs)).2.map Clause.collapsed
        = cs.map Clause.collapsed) ↔ Settled cs := by
  have hstart : Keyword.mayStartAfter (some ' ') = true := by decide
  induction cs generalizing k with
  | nil => exact absurd rfl hcs
  | cons c cs ih =>
    have hlt := hahead c List.mem_cons_self
    have hkinds : ∀ x ∈ c :: cs, x.kind ≠ .leading := by
      intro x hx hk
      have hx := hahead x hx
      rw [hk] at hx
      exact absurd hx (Nat.not_lt_zero _)
    have hc := hkinds c List.mem_cons_self
    obtain ⟨hlater, hrest⟩ := List.pairwise_cons.1 hordered
    by_cases hnil : cs = []
    · subst hnil
      rw [settled_singleton_iff]
      by_cases hb : Text.words c.body = []
      · -- the word alone is read as text
        have hfirst : (split k .top (some ' ') 0 (written [c])).1 ≠ [] := by
          have hnone := opens?_word_end k c.kind (some ' ')
          rw [written_singleton_blank hc hb]
          obtain ⟨x, w, hw, -⟩ := c.kind.word_cons (Nat.ne_of_gt (Nat.zero_lt_of_lt hlt))
          rw [hw] at hnone ⊢
          rw [split_cons fun _ _ => hnone]
          exact List.cons_ne_nil x _
        exact ⟨fun h => absurd h.1 hfirst, fun h => absurd hb h.present⟩
      · have hlast : (Text.collapse c.body).getLast? ≠ some ';' := by
          rw [written_singleton hc hb] at hend
          have hne : Text.collapse c.body ≠ [] := by
            intro h
            have := Text.words_collapse c.body
            rw [h] at this
            exact hb this.symm
          rwa [← List.singleton_append, ← List.append_assoc,
            List.getLast?_append_of_ne_nil _ hne] at hend
        have hiff := split_last_iff c.kind (Text.collapse c.body)
        rw [Text.words_collapse] at hiff
        rw [written_singleton hc hb, split_word hlt hstart]
        simp only [true_and, List.map_cons, List.map_nil, List.cons.injEq,
          List.map_eq_nil_iff]
        rw [collapsed_eq_iff (b := c.body), hiff]
        exact ⟨fun h => ⟨hb, h, hlast⟩, fun h => h.passes⟩
    · have hbegins := beginsClause_written hnil fun x hx => hkinds x (List.mem_cons_of_mem c hx)
      have hcons := written_cons hc hnil fun x hx => hkinds x (List.mem_cons_of_mem c hx)
      have hlast : (written cs).getLast? ≠ some ';' := by
        obtain ⟨x, r, hr, -⟩ := hbegins.head
        rw [hcons, ← List.singleton_append, ← List.append_assoc, ← List.append_assoc,
          List.getLast?_append_of_ne_nil _ (by rw [hr]; exact List.cons_ne_nil x r)] at hend
        exact hend
      have hnext := ih hnil hlater hrest hlast
      rw [settled_cons_iff hnil, hcons, split_word hlt hstart]
      simp only [true_and, List.map_cons, List.cons.injEq]
      rw [collapsed_eq_iff (b := c.body), split_body_iff hnil hbegins]
      refine and_congr ⟨fun h => ⟨fun hk => absurd hk hc, h.1, h.2⟩, fun h => ?_⟩ hnext
      exact ⟨h.passes, h.level⟩

/-! ## Signs -/

/-- Where a clause opens, its keyword is found, and one of the characters it asks for follows.
What the keyword takes is made of letters and blanks. -/
theorem exists_of_opens? {kind : ClauseKind} {length : Nat}
    (h : opens? k before t = some (kind, length)) :
    k.rank < kind.rank ∧ Keyword.mayStartAfter before = true ∧ ∃ w d r, t = w ++ d :: r ∧
      w.length = length ∧ w ≠ [] ∧ (∀ c ∈ w, isIdentifierChar c = true ∨ isBlank c = true) ∧
      Keyword.after? kind.word t = some (d :: r) ∧ kind.keyword.accepts d = true := by
  have hlt := rank_lt_of_opens? h
  rw [opens?] at h
  obtain ⟨l, -, hl⟩ := List.exists_of_findSome?_eq_some h
  split at hl
  · obtain ⟨m, hm, hx⟩ := Option.map_eq_some_iff.1 hl
    obtain ⟨rfl, rfl⟩ := Prod.mk.inj hx
    obtain ⟨hstart, d, r, hafter, hacc, rfl⟩ := Keyword.length?_eq_some_iff.1 hm
    rw [ClauseKind.keyword_word] at hafter
    obtain ⟨w, rfl, hle, hw⟩ := Keyword.taken_of_after? hafter
    refine ⟨hlt, hstart, w, d, r, rfl, ?_, ?_, fun c hc => ?_, hafter, hacc⟩
    · rw [List.length_append, Nat.add_sub_cancel]
    · rintro rfl
      obtain ⟨y, v, hv, -⟩ := l.word_cons (Nat.pos_iff_ne_zero.1 (Nat.zero_lt_of_lt hlt))
      rw [hv] at hle
      exact absurd hle (Nat.not_succ_le_zero _)
    · refine (hw c hc).imp_left fun hletters => ?_
      obtain ⟨hmem, hne⟩ := hletters
      have hletter := List.all_eq_true.1 l.word_letters _ hmem
      rw [Bool.or_eq_true, beq_iff_eq] at hletter
      exact isIdentifierChar_of_isAlpha (isAlpha_of_isUpper_toUpper (hletter.resolve_left hne))
  · exact absurd hl (by simp)

theorem take_of_opens? {x : ClauseKind × Nat} (h : opens? k before t = some x) :
    0 < x.2 ∧ ∀ c ∈ t.take x.2, isIdentifierChar c = true ∨ isBlank c = true := by
  obtain ⟨kind, length⟩ := x
  obtain ⟨-, -, w, d, r, rfl, rfl, hne, hw, -⟩ := exists_of_opens? h
  refine ⟨List.length_pos_of_ne_nil hne, ?_⟩
  rwa [List.take_left' rfl]

/-! ## Ink -/

theorem ink_of_opens? {kind : ClauseKind} {length : Nat}
    (h : opens? k before t = some (kind, length)) :
    Text.ink t = Text.ink kind.word ++ Text.ink (t.drop length) := by
  obtain ⟨-, -, w, d, r, rfl, rfl, -, -, hafter, -⟩ := exists_of_opens? h
  rw [List.drop_left' rfl, Keyword.ink_of_after? hafter]

theorem ink_writeClause (c : Clause) :
    Text.ink (writeClause c) = Text.ink c.kind.word ++ Text.ink c.body := by
  by_cases hc : c.kind = .leading
  · rw [writeClause, hc]
    rfl
  · rw [writeClause_eq hc, Text.ink_append, Text.ink_cons,
      Text.ink_of_blank (t := [' ']) (by decide), List.nil_append]

/-- The clauses of a text hold all of its ink. -/
theorem ink_split (k : ClauseKind) (n : Nesting) (before : Option Char) (skip : Nat) (t : Text) :
    Text.ink (t.drop skip) = Text.ink (split k n before skip t).1 ++
      (split k n before skip t).2.flatMap fun c => Text.ink (writeClause c) := by
  induction t generalizing k n before skip with
  | nil => cases skip <;> simp [split, Text.ink_of_blank]
  | cons d t ih =>
    cases skip with
    | succ skip => exact ih k n (some d) skip
    | zero =>
      rw [split]
      split
      · next kind length hif =>
        have hopens : opens? k before (d :: t) = some (kind, length) := by
          split at hif
          · exact hif
          · exact absurd hif (by simp)
        obtain ⟨m, rfl⟩ := Nat.exists_eq_add_one_of_ne_zero (Nat.ne_of_gt (take_of_opens? hopens).1)
        rw [List.drop_zero, ink_of_opens? hopens, List.drop_succ_cons,
          ih kind (n.read d) (some d) m, List.flatMap_cons, ink_writeClause, Text.ink_trim,
          List.append_assoc]
        rfl
      · have hrest := ih k (n.read d) (some d) 0
        rw [List.drop_zero] at hrest ⊢
        rw [← List.singleton_append, Text.ink_append, hrest, ← List.append_assoc, ← Text.ink_append]
        rfl

theorem ink_clausesOf (t : Text) :
    Text.ink t = (clausesOf t).flatMap fun c => Text.ink (writeClause c) := by
  have hink := ink_split .leading .top none 0 t
  rw [List.drop_zero] at hink
  rw [clausesOf, hink]
  split
  · next hempty =>
    rw [← Text.ink_trim, List.isEmpty_iff.1 hempty]
    rfl
  · rw [List.flatMap_cons, ink_writeClause, Text.ink_trim]
    rfl

theorem ink_written (cs : List Clause) :
    Text.ink (written cs) = cs.flatMap fun c => Text.ink (writeClause c) := by
  rw [written, Text.ink_collapse, Text.ink_join_spaces, List.flatMap_map]

/-! ## Reading an outline back -/

/-- At the start of a text a keyword may start as it may behind a space. -/
theorem split_start (k : ClauseKind) (n : Nesting) (t : Text) :
    split k n none 0 t = split k n (some ' ') 0 t := by
  have hstart : Keyword.mayStartAfter none = Keyword.mayStartAfter (some ' ') := by decide
  cases t with
  | nil => rfl
  | cons c t =>
    rw [split, split, opens?_congr hstart]

theorem fst_split_prefix (k : ClauseKind) (n : Nesting) (before : Option Char) (t : Text) :
    (split k n before 0 t).1 <+: t := by
  rcases split_cases k n before t with
    hpass | ⟨u, v, kind, length, rfl, hpass, hclosing, htop, hopens⟩
  · exact ⟨[], by rw [hpass.split_nil, List.append_nil]⟩
  · obtain ⟨c, r, rfl, -⟩ := head_of_opens? hopens
    have hfst : (split k n before 0 (u ++ c :: r)).1 = u := by
      rw [hpass.split, split_opening (htop c rfl) hclosing hopens, putFront, List.append_nil]
    exact ⟨c :: r, by rw [hfst]⟩

/-- A text that begins with the word of a clause is found to have nothing in front of it when
what is in front is blank. -/
theorem fst_split_eq_nil (ht : BeginsClause t) (h : Text.words (split k n before 0 t).1 = []) :
    (split k n before 0 t).1 = [] := by
  obtain ⟨v, hv⟩ := fst_split_prefix k n before t
  cases hfst : (split k n before 0 t).1 with
  | nil => rfl
  | cons x u =>
    rw [hfst, List.cons_append] at hv
    rw [hfst, Text.words_eq_nil_iff] at h
    have hx := ht.head_not_blank x (by rw [← hv]; rfl)
    exact absurd (h x List.mem_cons_self) (by simp [hx])

/-- Clauses without one in front of `SELECT`, as the clauses of a text. -/
theorem clausesOf_iff {ds : List Clause} (hds : ∀ c ∈ ds, c.kind ≠ .leading) (t : Text) :
    (clausesOf t).map Clause.collapsed = ds.map Clause.collapsed ↔
      Text.words (split .leading .top (some ' ') 0 t).1 = [] ∧
        (split .leading .top (some ' ') 0 t).2.map Clause.collapsed
          = ds.map Clause.collapsed := by
  rw [clausesOf, split_start]
  simp only [List.isEmpty_iff, Text.trim_eq_nil_iff]
  split
  · next hblank => simp [hblank]
  · next hsome =>
    refine ⟨fun h => ?_, fun h => absurd h.1 hsome⟩
    cases ds with
    | nil => exact absurd h (by simp)
    | cons c ds =>
      rw [List.map_cons, List.map_cons, List.cons.injEq] at h
      have hkind : ClauseKind.leading = c.kind := congrArg Clause.kind h.1
      exact absurd hkind.symm (hds c List.mem_cons_self)

/-- Clauses with one in front of `SELECT`, as the clauses of a text. -/
theorem clausesOf_leading_iff {c : Clause} {ds : List Clause} (hc : c.kind = .leading) (t : Text) :
    (clausesOf t).map Clause.collapsed = (c :: ds).map Clause.collapsed ↔
      Text.words c.body ≠ [] ∧
        Text.words (split .leading .top (some ' ') 0 t).1 = Text.words c.body ∧
        (split .leading .top (some ' ') 0 t).2.map Clause.collapsed
          = ds.map Clause.collapsed := by
  obtain ⟨kind, body⟩ := c
  obtain rfl : kind = .leading := hc
  obtain ⟨-, hlater⟩ := ordered_split .leading .top (some ' ') 0 t
  rw [clausesOf, split_start]
  simp only [List.isEmpty_iff, Text.trim_eq_nil_iff]
  split
  · next hblank =>
    constructor
    · intro h
      cases hsnd : (split .leading .top (some ' ') 0 t).2 with
      | nil =>
        rw [hsnd] at h
        exact absurd h (by simp)
      | cons d ds' =>
        rw [hsnd, List.map_cons, List.map_cons, List.cons.injEq] at h
        have hkind : d.kind = .leading := congrArg Clause.kind h.1
        have hlt := hlater d (by rw [hsnd]; exact List.mem_cons_self)
        rw [hkind] at hlt
        exact absurd hlt (Nat.lt_irrefl _)
    · rintro ⟨hne, hwords, -⟩
      exact absurd (hwords.symm.trans hblank) hne
  · next hsome =>
    rw [List.map_cons, List.map_cons, List.cons.injEq, collapsed_eq_iff]
    exact ⟨fun h => ⟨h.1 ▸ hsome, h⟩, fun h => h.2⟩

theorem Concluded.written_end {c : Clause} (h : Concluded c) :
    (written [c]).getLast? ≠ some ';' := by
  have hne : Text.collapse c.body ≠ [] := by
    intro hnil
    have hwords := Text.words_collapse c.body
    rw [hnil] at hwords
    exact h.present hwords.symm
  by_cases hc : c.kind = .leading
  · rw [written_singleton_leading hc]
    exact h.open_ended
  · rw [written_singleton hc h.present, ← List.singleton_append, ← List.append_assoc,
      List.getLast?_append_of_ne_nil _ hne]
    exact h.open_ended

/-- What is written for clauses in order ends as what is written for the last of them. -/
theorem getLast?_written_cons (hcs : cs ≠ []) (hkinds : ∀ c ∈ cs, c.kind ≠ .leading) :
    (written (c :: cs)).getLast? = (written cs).getLast? := by
  obtain ⟨x, r, hr, -⟩ := (beginsClause_written hcs hkinds).head
  have hne : written cs ≠ [] := by
    rw [hr]
    exact List.cons_ne_nil x r
  by_cases hc : c.kind = .leading
  · rw [written_leading_cons hc hcs hkinds, List.getLast?_append_of_ne_nil _ hne]
  · rw [written_cons hc hcs hkinds, ← List.singleton_append, ← List.append_assoc,
      ← List.append_assoc, List.getLast?_append_of_ne_nil _ hne]

theorem kinds_of_ordered_cons (h : Ordered (c :: cs)) : ∀ x ∈ cs, x.kind ≠ .leading := by
  intro x hx hk
  have hlt := (List.pairwise_cons.1 h).1 x hx
  rw [hk] at hlt
  exact absurd hlt (Nat.not_lt_zero _)

theorem Settled.written_end (h : Settled cs) (hordered : Ordered cs) :
    (written cs).getLast? ≠ some ';' := by
  induction h with
  | nil => simp [written, Text.collapse, Text.words, Text.cut, Text.join]
  | last h => exact h.written_end
  | cons hcs _ _ ih =>
    rw [getLast?_written_cons hcs (kinds_of_ordered_cons hordered)]
    exact ih (List.pairwise_cons.1 hordered).2

/-- Clauses in order that do not end in `;` are found again in what is written for them
exactly when they are settled. -/
theorem clausesOf_written_iff (hordered : Ordered cs)
    (hend : (written cs).getLast? ≠ some ';') :
    (clausesOf (written cs)).map Clause.collapsed = cs.map Clause.collapsed ↔ Settled cs := by
  cases cs with
  | nil => exact ⟨fun _ => .nil, fun _ => rfl⟩
  | cons c cs =>
    have hkinds := kinds_of_ordered_cons hordered
    obtain ⟨hlater, hrest⟩ := List.pairwise_cons.1 hordered
    by_cases hc : c.kind = .leading
    · rw [clausesOf_leading_iff hc]
      by_cases hcs : cs = []
      · subst hcs
        have hiff := split_last_iff .leading (Text.collapse c.body)
        rw [Text.words_collapse] at hiff
        have hlast := hend
        rw [written_singleton_leading hc] at hlast ⊢
        rw [settled_singleton_iff, List.map_nil, List.map_eq_nil_iff, hiff]
        exact ⟨fun h => ⟨h.1, hc ▸ h.2, hlast⟩, fun h => ⟨h.present, hc ▸ h.passes⟩⟩
      · have hahead : ∀ x ∈ cs, ClauseKind.leading.rank < x.kind.rank :=
          fun x hx => ClauseKind.rank_pos (hkinds x hx)
        have hnext := split_written_iff hcs hahead hrest
          (getLast?_written_cons (c := c) hcs hkinds ▸ hend)
        rw [settled_cons_iff hcs, written_leading_cons hc hcs hkinds,
          split_body_iff hcs (beginsClause_written hcs hkinds),
          and_congr_right_iff.2 fun _ => hnext, ← and_assoc]
        refine and_congr_left' ⟨fun h => ⟨fun _ => h.1, hc ▸ h.2.1, h.2.2⟩, fun h => ?_⟩
        exact ⟨h.present hc, hc ▸ h.passes, h.level⟩
    · have hall : ∀ x ∈ c :: cs, x.kind ≠ .leading := by
        intro x hx
        rcases List.mem_cons.1 hx with rfl | hx
        · exact hc
        · exact hkinds x hx
      have hahead : ∀ x ∈ c :: cs, ClauseKind.leading.rank < x.kind.rank :=
        fun x hx => ClauseKind.rank_pos (hall x hx)
      have hbegins := beginsClause_written (List.cons_ne_nil c cs) hall
      rw [clausesOf_iff hall, ← split_written_iff (List.cons_ne_nil c cs) hahead hordered hend]
      refine and_congr_left' ⟨fst_split_eq_nil hbegins, fun h => ?_⟩
      rw [h]
      rfl

theorem render_eq (o : Outline) :
    o.render = written o.clauses ++ if o.terminated then [';'] else [] := rfl

theorem singleSpaced_written (cs : List Clause) : Text.SingleSpaced (written cs) :=
  Text.singleSpaced_collapse _

theorem bodyOf_render (o : Outline) :
    bodyOf o.render = Text.trimEnd (Text.dropEnd (· == ';') (written o.clauses)) := by
  have hspaced := singleSpaced_written o.clauses
  rw [render_eq, bodyOf]
  split
  · have hconcat := hspaced.concat (show isBlank ';' = false by decide)
    rw [hconcat.trim_eq_self, Text.dropEnd_concat_of_pos (by decide)]
  · rw [List.append_nil, hspaced.trim_eq_self]

/-- Where the last body ends in `;`, this one is taken for the end of the statement. -/
theorem clauses_scan_render_ne {o : Outline} (hend : (written o.clauses).getLast? = some ';') :
    (scan o.render).clauses.map Clause.collapsed ≠ o.clauses.map Clause.collapsed := by
  intro h
  -- both texts hold the ink of the clauses
  have hcollapsed : ∀ cs : List Clause, (cs.flatMap fun c => Text.ink (writeClause c))
      = (cs.map Clause.collapsed).flatMap fun c => Text.ink (writeClause c) := by
    intro cs
    rw [List.flatMap_map]
    refine List.flatMap_congr fun c _ => ?_
    rw [ink_writeClause, ink_writeClause, Clause.collapsed, Text.ink_collapse]
  have hink : Text.ink (bodyOf o.render) = Text.ink (written o.clauses) := by
    rw [ink_clausesOf, ink_written, hcollapsed, ← scan_clauses, h, ← hcollapsed]
  obtain ⟨e, he, hsemi⟩ := Text.dropEnd_append_ending (· == ';') (written o.clauses)
  obtain ⟨b, hb, -⟩ := Text.dropEnd_append_ending isBlank
    (Text.dropEnd (· == ';') (written o.clauses))
  rw [bodyOf_render] at hink
  conv_rhs at hink => rw [he, hb, Text.ink_append, Text.ink_append, List.append_assoc]
  have hnone := List.append_eq_nil_iff.1 (List.self_eq_append_right.1 hink)
  cases e with
  | nil =>
    rw [List.append_nil] at he
    rw [he] at hend
    exact absurd (Text.getLast?_dropEnd hend) (by decide)
  | cons d e =>
    obtain rfl := eq_of_beq (hsemi d List.mem_cons_self)
    rw [Text.ink_cons] at hnone
    exact absurd (List.append_eq_nil_iff.1 hnone.2).1 (by decide)

/-- **Outlines that are read back.** An outline with its clauses in order, written and scanned
again, has the same clauses with the same words in their bodies if and only if it is
settled. -/
theorem scan_render_iff {o : Outline} (hordered : Ordered o.clauses) :
    (scan o.render).clauses.map Clause.collapsed = o.clauses.map Clause.collapsed ↔
      Settled o.clauses := by
  by_cases hend : (written o.clauses).getLast? = some ';'
  · exact ⟨fun h => absurd h (clauses_scan_render_ne hend),
      fun h => absurd hend (h.written_end hordered)⟩
  · have hkept : Text.dropEnd (· == ';') (written o.clauses) = written o.clauses := by
      refine Text.dropEnd_eq_self fun c hc => beq_eq_false_iff_ne.2 ?_
      rintro rfl
      exact hend hc
    have htrim : Text.trimEnd (written o.clauses) = written o.clauses :=
      Text.dropEnd_eq_self fun c hc => (singleSpaced_written o.clauses).last_not_blank hc
    rw [scan_clauses, bodyOf_render, hkept, htrim, clausesOf_written_iff hordered hend]

end Outline

end SqlScribe
