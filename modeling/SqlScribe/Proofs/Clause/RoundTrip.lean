import SqlScribe.Proofs.Clause.Bodies
import SqlScribe.Proofs.Clause.Opening

/-!
# Outlines read back

An outline that is written and scanned again is the same outline, as long as its bodies
are inert: read over whole, with no clause opening in them. Main statements:

* `inert_run`, `inert_sign`, `inert_quoted`, `inert_parenthesized`: the inert pieces;
* `Inert.append`, `Solid.join`: pieces put together;
* `split_clauses`: clauses in order are read one by one;
* `scan_render`: a well-formed outline is read back as it was written.
-/

namespace SqlScribe

attribute [ext] Outline

namespace Outline

/-! ## Reading one character -/

/-- What was read in front of the rest of a body. -/
def putFront (t : Text) (r : Text × List Clause) : Text × List Clause := (t ++ r.1, r.2)

theorem putFront_append (a b : Text) (r : Text × List Clause) :
    putFront (a ++ b) r = putFront a (putFront b r) := by
  simp [putFront]

/-- A character at which no clause opens is part of the body. -/
theorem split_cons {k : ClauseKind} {n : Nesting} {before : Option Char} {c : Char} {t : Text}
    (h : (n.read c).isTop = true → n.closing = none → opens? k before (c :: t) = none) :
    split k n before 0 (c :: t) = putFront [c] (split k (n.read c) (some c) 0 t) := by
  have hnone : (if (n.read c).isTop && n.closing.isNone then opens? k before (c :: t) else none)
      = none := by
    split
    · next hif =>
      rw [Bool.and_eq_true, Option.isNone_iff_eq_none] at hif
      exact h hif.1 hif.2
    · rfl
  rw [split]
  simp only [hnone]
  rfl

/-- A character at which a clause opens begins its keyword. -/
theorem split_opening {k kind : ClauseKind} {n : Nesting} {before : Option Char} {c : Char}
    {t : Text} {length : Nat} (htop : (n.read c).isTop = true) (hclosing : n.closing = none)
    (h : opens? k before (c :: t) = some (kind, length)) :
    split k n before 0 (c :: t) =
      ([], ⟨kind, Text.trim (split kind (n.read c) (some c) (length - 1) t).1⟩ ::
        (split kind (n.read c) (some c) (length - 1) t).2) := by
  have hsome : (if (n.read c).isTop && n.closing.isNone then opens? k before (c :: t) else none)
      = some (kind, length) := by
    rw [htop, hclosing, if_pos (by decide), h]
  rw [split]
  simp only [hsome]

/-- The rest of a keyword is passed over. -/
theorem split_skip (k : ClauseKind) (n : Nesting) (before : Option Char) (w t : Text) :
    split k n before w.length (w ++ t) = split k n (w.getLast?.or before) 0 t := by
  induction w generalizing before with
  | nil => rfl
  | cons c w ih =>
    rw [List.length_cons, List.cons_append, split, ih, Text.getLast?_cons_or]

/-! ## Inert texts -/

/-- A text that is read over as part of any body: it is not empty, no clause opens in it,
and behind it the reader is where it was, outside of quotations and parentheses. -/
structure Inert (t : Text) : Prop where
  ne_nil : t ≠ []
  split_append : ∀ (k : ClauseKind) (before : Option Char) (rest : Text), Text.Apart t rest →
    split k .top before 0 (t ++ rest) = putFront t (split k .top t.getLast? 0 rest)

/-- Two inert texts make one, if no identifier runs from the first into the second. -/
theorem Inert.append {a b : Text} (ha : Inert a) (hb : Inert b) (hab : Text.Apart a b) :
    Inert (a ++ b) := by
  refine ⟨List.append_ne_nil_of_left_ne_nil ha.ne_nil b, fun k before rest hrest => ?_⟩
  have hfirst := hab.append_right hb.ne_nil rest
  have hsecond := hrest.of_append_left hb.ne_nil
  rw [List.append_assoc, ha.split_append k before _ hfirst, hb.split_append k _ rest hsecond,
    ← putFront_append, List.getLast?_append_of_ne_nil a hb.ne_nil]

/-- A sign that opens nothing is inert. -/
theorem inert_sign {c : Char} (hc : isIdentifierChar c = false)
    (hread : Nesting.top.read c = .top) :
    Inert [c] := by
  refine ⟨List.cons_ne_nil c [], fun k before rest _ => ?_⟩
  have hsplit : split k .top before 0 (c :: rest)
      = putFront [c] (split k (Nesting.top.read c) (some c) 0 rest) :=
    split_cons fun _ _ => opens?_eq_none_of_sign rest hc
  rw [hread] at hsplit
  exact hsplit

/-- Inside an identifier nothing is opened. -/
theorem split_identifier (k : ClauseKind) {c : Char} {w : Text} (hc : isIdentifierChar c = true)
    (hw : ∀ d ∈ w, isIdentifierChar d = true) (rest : Text) :
    split k .top (some c) 0 (w ++ rest) = putFront w (split k .top (c :: w).getLast? 0 rest) := by
  induction w generalizing c with
  | nil => rfl
  | cons d w ih =>
    have hd := hw d List.mem_cons_self
    have hread : Nesting.top.read d = .top := read_of_isIdentifierChar hd 0
    have hstart : Keyword.mayStartAfter (some c) = false := by
      simp [Keyword.mayStartAfter, hc]
    have hsplit := split_cons (k := k) (n := .top) (t := w ++ rest)
      fun _ _ => opens?_eq_none_of_before (d :: (w ++ rest)) hstart
    rw [List.cons_append, hsplit, hread, ih hd fun x hx => hw x (List.mem_cons_of_mem _ hx),
      List.getLast?_cons_cons]
    rfl

/-- An identifier that is not reserved is inert. -/
theorem inert_run {w : Text} (hne : w ≠ []) (hw : ∀ c ∈ w, isIdentifierChar c = true)
    (hres : w.asciiUpper ∉ reservedWords) : Inert w := by
  refine ⟨hne, fun k before rest hrest => ?_⟩
  have hnone : opens? k before (w ++ rest) = none := opens?_eq_none_of_run hne hw hres hrest
  obtain ⟨c, w, rfl⟩ := List.exists_cons_of_ne_nil hne
  have hc := hw c List.mem_cons_self
  have hread : Nesting.top.read c = .top := read_of_isIdentifierChar hc 0
  have hsplit : split k .top before 0 (c :: (w ++ rest))
      = putFront [c] (split k (Nesting.top.read c) (some c) 0 (w ++ rest)) :=
    split_cons fun _ _ => hnone
  rw [List.cons_append, hsplit, hread,
    split_identifier k hc (fun x hx => hw x (List.mem_cons_of_mem _ hx)) rest]
  rfl

/-- A quotation is read to the next quote, whatever stands in it. -/
theorem split_quotation (k : ClauseKind) (before : Option Char) {u : Text} (hu : '\'' ∉ u)
    (rest : Text) : split k ⟨0, some '\''⟩ before 0 (u ++ '\'' :: rest)
      = putFront (u ++ ['\'']) (split k .top (some '\'') 0 rest) := by
  induction u generalizing before with
  | nil => exact split_cons fun _ h => absurd h (by simp)
  | cons c u ih =>
    rw [List.mem_cons, not_or] at hu
    have hread : Nesting.read ⟨0, some '\''⟩ c = ⟨0, some '\''⟩ := by
      have hne : (c == '\'') = false := beq_eq_false_iff_ne.2 (Ne.symm hu.1)
      simp only [Nesting.read, hne, Bool.false_eq_true, if_false]
    rw [List.cons_append, split_cons (fun _ h => absurd h (by simp)), hread, ih (some c) hu.2]
    rfl

/-- A quoted text is inert. -/
theorem inert_quoted {u : Text} (hu : '\'' ∉ u) : Inert ('\'' :: (u ++ ['\''])) := by
  refine ⟨List.cons_ne_nil _ _, fun k before rest _ => ?_⟩
  have hlast : ('\'' :: (u ++ ['\''])).getLast? = some '\'' := by
    rw [← List.cons_append, List.getLast?_concat]
  have hread : Nesting.top.read '\'' = ⟨0, some '\''⟩ := rfl
  rw [hlast, List.cons_append, List.append_assoc, List.singleton_append,
    split_cons (fun htop _ => absurd htop (by rw [hread]; decide)), hread,
    split_quotation k _ hu rest]
  rfl

/-- What stands in parentheses is read over, when it opens and closes nothing itself. -/
theorem split_parenthesis (k : ClauseKind) (before : Option Char) {u : Text}
    (hu : ∀ c ∈ u, Nesting.read ⟨1, none⟩ c = ⟨1, none⟩) (rest : Text) :
    split k ⟨1, none⟩ before 0 (u ++ ')' :: rest)
      = putFront (u ++ [')']) (split k .top (some ')') 0 rest) := by
  induction u generalizing before with
  | nil => exact split_cons fun _ _ => opens?_eq_none_of_sign rest (by decide)
  | cons c u ih =>
    have hread := hu c List.mem_cons_self
    rw [List.cons_append, split_cons (fun h _ => absurd h (by rw [hread]; decide)), hread,
      ih (some c) fun x hx => hu x (List.mem_cons_of_mem _ hx)]
    rfl

/-- Parentheses around a text that opens and closes nothing are inert. -/
theorem inert_parenthesized {u : Text} (hu : ∀ c ∈ u, Nesting.read ⟨1, none⟩ c = ⟨1, none⟩) :
    Inert ('(' :: (u ++ [')'])) := by
  refine ⟨List.cons_ne_nil _ _, fun k before rest _ => ?_⟩
  have hlast : ('(' :: (u ++ [')'])).getLast? = some ')' := by
    rw [← List.cons_append, List.getLast?_concat]
  have hread : Nesting.top.read '(' = ⟨1, none⟩ := rfl
  rw [hlast, List.cons_append, List.append_assoc, List.singleton_append,
    split_cons (fun htop _ => absurd htop (by rw [hread]; decide)), hread,
    split_parenthesis k _ hu rest]
  rfl

/-! ## Separators -/

/-- A text to put between others: it is inert, it has signs at both ends, which keep the
identifiers beside it apart, and it leaves single-spaced texts single-spaced. -/
structure Separates (s : Text) : Prop where
  inert : Inert s
  head : ∀ c, s.head? = some c → isIdentifierChar c = false
  last : ∀ c, s.getLast? = some c → isIdentifierChar c = false
  spaced : ∀ a b : Text, a ≠ [] → b ≠ [] → Text.SingleSpaced a → Text.SingleSpaced b →
    Text.SingleSpaced (a ++ s ++ b)
  no_semicolon : ';' ∉ s

theorem Inert.separated {a s b : Text} (ha : Inert a) (hs : Separates s) (hb : Inert b) :
    Inert (a ++ s ++ b) := by
  have hfirst := ha.append hs.inert (.of_head hs.head)
  refine hfirst.append hb (.of_last ?_)
  rw [List.getLast?_append_of_ne_nil a hs.inert.ne_nil]
  exact hs.last

theorem inert_space : Inert [' '] := inert_sign (by decide) rfl

theorem separates_space : Separates [' '] := by
  refine ⟨inert_space, fun c hc => ?_, fun c hc => ?_, fun a b ha hb hsa hsb => ?_, by decide⟩
  · rw [← Option.some.inj hc]
    decide
  · rw [← Option.some.inj hc]
    decide
  · rw [List.append_assoc]
    exact hsa.append_space hsb ha hb

theorem separates_comma : Separates [',', ' '] := by
  have hcomma : Inert [','] := inert_sign (by decide) rfl
  have hap : Text.Apart [','] [' '] := .of_head fun c hc => by rw [← Option.some.inj hc]; decide
  refine ⟨hcomma.append inert_space hap, fun c hc => ?_, fun c hc => ?_,
    fun a b ha hb hsa hsb => ?_, by decide⟩
  · rw [← Option.some.inj hc]
    decide
  · rw [← Option.some.inj hc]
    decide
  · have hspaced := (hsa.concat (show isBlank ',' = false by decide)).append_space hsb
      (by simp) hb
    simpa using hspaced

/-! ## Compact texts -/

/-- A text that stays as it is when layout is collapsed and terminators are dropped. -/
structure Compact (t : Text) : Prop where
  ne_nil : t ≠ []
  spaced : Text.SingleSpaced t
  no_semicolon : ';' ∉ t

theorem Compact.collapse_eq {t : Text} (h : Compact t) : Text.collapse t = t :=
  Text.singleSpaced_iff.1 h.spaced

/-- A text without blanks and semicolons is compact. -/
theorem compact_of_chars {w : Text} (hne : w ≠ [])
    (hw : ∀ c ∈ w, isBlank c = false ∧ c ≠ ';') : Compact w := by
  have hword : Text.IsWord w := ⟨hne, fun c hc => (hw c hc).1⟩
  exact ⟨hne, hword.singleSpaced, fun hc => (hw _ hc).2 rfl⟩

theorem Compact.separated {a s b : Text} (ha : Compact a) (hs : Separates s) (hb : Compact b) :
    Compact (a ++ s ++ b) := by
  refine ⟨List.append_ne_nil_of_right_ne_nil _ hb.ne_nil,
    hs.spaced a b ha.ne_nil hb.ne_nil ha.spaced hb.spaced, ?_⟩
  simp [ha.no_semicolon, hs.no_semicolon, hb.no_semicolon]

/-- Compact texts make one with a separator between neighbours. -/
theorem Compact.join {s : Text} (hs : Separates s) {ts : List Text} (hne : ts ≠ [])
    (h : ∀ t ∈ ts, Compact t) : Compact (Text.join s ts) :=
  Text.join_induction (fun _ _ ha hb => ha.separated hs hb) hne h

/-! ## Solid texts -/

/-- A text that can be the body of a clause as it stands. -/
structure Solid (t : Text) : Prop where
  inert : Inert t
  spaced : Text.SingleSpaced t
  no_semicolon : ';' ∉ t

theorem Solid.ne_nil {t : Text} (h : Solid t) : t ≠ [] := h.inert.ne_nil

theorem Solid.compact {t : Text} (h : Solid t) : Compact t := ⟨h.ne_nil, h.spaced, h.no_semicolon⟩

theorem Solid.collapse_eq {t : Text} (h : Solid t) : Text.collapse t = t := h.compact.collapse_eq

theorem Solid.words_ne_nil {t : Text} (h : Solid (Text.collapse t)) : Text.words t ≠ [] := by
  intro hw
  refine h.ne_nil ?_
  rw [Text.collapse, hw]
  rfl

/-- A word without semicolons is solid when it is inert. -/
theorem solid_of_isWord {w : Text} (hw : Text.IsWord w) (hi : Inert w) (hs : ';' ∉ w) : Solid w :=
  ⟨hi, hw.singleSpaced, hs⟩

theorem Solid.separated {a s b : Text} (ha : Solid a) (hs : Separates s) (hb : Solid b) :
    Solid (a ++ s ++ b) := by
  obtain ⟨-, hspaced, hsemicolon⟩ := ha.compact.separated hs hb.compact
  exact ⟨ha.inert.separated hs hb.inert, hspaced, hsemicolon⟩

/-- Solid texts make one with a separator between neighbours. -/
theorem Solid.join {s : Text} (hs : Separates s) {ts : List Text} (hne : ts ≠ [])
    (h : ∀ t ∈ ts, Solid t) : Solid (Text.join s ts) :=
  Text.join_induction (fun _ _ ha hb => ha.separated hs hb) hne h

/-- A sign that opens and closes nothing and ends no statement. -/
def isPlainSign (c : Char) : Bool :=
  !isIdentifierChar c && !isBlank c && c != ';' && Nesting.top.read c == .top

/-- Signs that open nothing are solid. -/
theorem solid_signs {s : Text} (hne : s ≠ []) (hs : s.all isPlainSign = true) : Solid s := by
  have hsign : ∀ c ∈ s, isIdentifierChar c = false ∧ isBlank c = false ∧ c ≠ ';' ∧
      Nesting.top.read c = .top := by
    intro c hc
    have hplain := List.all_eq_true.1 hs c hc
    simp only [isPlainSign, Bool.and_eq_true, Bool.not_eq_true', bne_iff_ne, beq_iff_eq] at hplain
    exact ⟨hplain.1.1.1, hplain.1.1.2, hplain.1.2, hplain.2⟩
  refine solid_of_isWord ⟨hne, fun c hc => (hsign c hc).2.1⟩ ?_ fun hc => (hsign _ hc).2.2.1 rfl
  clear hs
  induction s with
  | nil => exact absurd rfl hne
  | cons c s ih =>
    obtain ⟨hc, -, -, hread⟩ := hsign c List.mem_cons_self
    by_cases hnil : s = []
    · subst hnil
      exact inert_sign hc hread
    · have hrest := ih hnil fun x hx => hsign x (List.mem_cons_of_mem _ hx)
      refine (inert_sign hc hread).append hrest (.of_last fun x hx => ?_)
      rw [← Option.some.inj hx]
      exact hc

/-- Texts that are solid when collapsed are so when they are joined by spaces. -/
theorem solid_collapse_join {ts : List Text} (hne : ts ≠ [])
    (h : ∀ t ∈ ts, Solid (Text.collapse t)) : Solid (Text.collapse (Text.join [' '] ts)) := by
  rw [Text.collapse_join fun t ht => (h t ht).words_ne_nil]
  refine Solid.join separates_space (by simpa using hne) fun u hu => ?_
  obtain ⟨t, ht, rfl⟩ := List.mem_map.1 hu
  exact h t ht

/-- An identifier that is not reserved is solid. -/
theorem solid_run {w : Text} (hne : w ≠ []) (hw : ∀ c ∈ w, isIdentifierChar c = true)
    (hres : w.asciiUpper ∉ reservedWords) : Solid w := by
  refine solid_of_isWord ⟨hne, fun c hc => isBlank_of_isIdentifierChar (hw c hc)⟩
    (inert_run hne hw hres) fun hs => ?_
  exact absurd (hw _ hs) (by decide)

/-! ## Reading clauses -/

theorem writeClause_eq {c : Clause} (h : c.kind ≠ .leading) :
    writeClause c = c.kind.word ++ ' ' :: c.body := by
  obtain ⟨kind, body⟩ := c
  cases kind with
  | leading => exact absurd rfl h
  | _ => simp [writeClause]

/-- A clause that lies ahead is opened by its word and takes what stands behind. -/
theorem split_clause {k kind : ClauseKind} (h : k.rank < kind.rank) {before : Option Char}
    (hbefore : Keyword.mayStartAfter before = true) {body : Text} (hbody : Inert body) {rest : Text}
    (hrest : Text.Apart body rest) :
    split k .top before 0 (kind.word ++ ' ' :: (body ++ rest)) =
      ([], ⟨kind, Text.trim (' ' :: (body ++ (split kind .top body.getLast? 0 rest).1))⟩ ::
        (split kind .top body.getLast? 0 rest).2) := by
  have hopens := opens?_word h hbefore (body ++ rest)
  have hspace : ∀ x, split kind .top x 0 (' ' :: (body ++ rest))
      = putFront (' ' :: body) (split kind .top body.getLast? 0 rest) := by
    intro x
    have hap : Text.Apart [' '] (body ++ rest) :=
      .of_last fun c hc => by rw [← Option.some.inj hc]; decide
    have hsp := inert_space.split_append kind x (body ++ rest) hap
    rw [List.singleton_append, hbody.split_append kind _ rest hrest] at hsp
    exact hsp
  obtain ⟨c, w, hw, hc⟩ := kind.word_cons (Nat.ne_of_gt (Nat.zero_lt_of_lt h))
  have hread : Nesting.top.read c = .top := read_of_isIdentifierChar hc 0
  have htop : (Nesting.top.read c).isTop = true := by
    rw [hread]
    rfl
  rw [hw, List.cons_append] at hopens
  rw [hw, List.cons_append, split_opening htop rfl hopens, hread, List.length_cons,
    Nat.add_sub_cancel, split_skip, hspace]
  rfl

/-- Clauses in order are read as they were written. -/
theorem split_clauses {k : ClauseKind} {before : Option Char}
    (hbefore : Keyword.mayStartAfter before = true) {cs : List Clause}
    (hahead : ∀ c ∈ cs, k.rank < c.kind.rank)
    (hordered : cs.Pairwise fun a b => a.kind.rank < b.kind.rank)
    (hbody : ∀ c ∈ cs, Solid c.body) :
    split k .top before 0 (Text.join [' '] (cs.map writeClause)) = ([], cs) := by
  induction cs generalizing k before with
  | nil => rfl
  | cons c cs ih =>
    have hlt := hahead c List.mem_cons_self
    have hsolid := hbody c List.mem_cons_self
    have hinert := hsolid.inert
    have hspaced := hsolid.spaced
    have hkind : c.kind ≠ .leading := by
      intro hk
      rw [hk] at hlt
      exact absurd hlt (Nat.not_lt_zero _)
    rw [List.pairwise_cons] at hordered
    have hrest := fun x hx => hbody x (List.mem_cons_of_mem c hx)
    rw [List.map_cons, writeClause_eq hkind]
    by_cases hnil : cs = []
    · subst hnil
      have hclause := split_clause hlt hbefore hinert (Text.Apart.nil _)
      rw [List.append_nil] at hclause
      rw [List.map_nil, Text.join, hclause]
      simp only [split, List.append_nil]
      have htrim := hspaced.trim_padded (Or.inl rfl) hinert.ne_nil
      rw [List.append_nil] at htrim
      rw [htrim]
    · -- behind the body stands a space at the top level, so the next word opens its clause
      have hmap : cs.map writeClause ≠ [] := by simpa using hnil
      have hstart : Keyword.mayStartAfter (some ' ') = true := by decide
      have hnext : split c.kind .top c.body.getLast? 0
          (' ' :: Text.join [' '] (cs.map writeClause)) = ([' '], cs) := by
        have hap : ∀ t, Text.Apart [' '] t :=
          fun t => .of_last fun d hd => by rw [← Option.some.inj hd]; decide
        have hsp := inert_space.split_append c.kind c.body.getLast?
          (Text.join [' '] (cs.map writeClause)) (hap _)
        rw [List.getLast?_singleton, ih hstart hordered.1 hordered.2 hrest] at hsp
        exact hsp
      have hap : Text.Apart c.body (' ' :: Text.join [' '] (cs.map writeClause)) :=
        .of_head fun d hd => by rw [← Option.some.inj hd]; decide
      rw [Text.join_cons _ _ hmap, List.append_assoc, List.append_assoc, List.cons_append,
        List.singleton_append, split_clause hlt hbefore hinert hap, hnext]
      simp only [hspaced.trim_padded (Or.inr rfl) hinert.ne_nil]

/-! ## Reading an outline back -/

/-- A clause with a compact body is compact as it is written. -/
theorem compact_writeClause {c : Clause} (hkind : c.kind ≠ .leading) (hbody : Compact c.body) :
    Compact (writeClause c) := by
  have hword : Compact c.kind.word := by
    refine ⟨?_, Text.singleSpaced_iff.2 ?_, ?_⟩ <;> cases hk : c.kind with
    | leading => exact absurd hk hkind
    | _ => decide
  have hclause := hword.separated separates_space hbody
  rwa [List.append_assoc, List.singleton_append, ← writeClause_eq hkind] at hclause

/-- An outline as a statement of a plan has it: the clauses in order, none in front of
`SELECT`, their bodies solid. -/
structure WellFormed (o : Outline) : Prop where
  ordered : o.clauses.Pairwise fun a b => a.kind.rank < b.kind.rank
  no_leading : ∀ c ∈ o.clauses, c.kind ≠ .leading
  solid : ∀ c ∈ o.clauses, Solid c.body

theorem WellFormed.singleSpaced {o : Outline} (h : o.WellFormed) :
    Text.SingleSpaced (Text.join [' '] (o.clauses.map writeClause)) := by
  refine Text.singleSpaced_join fun t ht => ?_
  obtain ⟨c, hc, rfl⟩ := List.mem_map.1 ht
  have hclause := compact_writeClause (h.no_leading c hc) (h.solid c hc).compact
  exact ⟨hclause.ne_nil, hclause.spaced⟩

theorem render_terminated {o : Outline} (ht : o.terminated = true) :
    o.render = Text.collapse (Text.join [' '] (o.clauses.map writeClause)) ++ [';'] := by
  rw [render, ht, if_pos rfl]
  rfl

/-- **The round trip of outlines.** A well-formed outline that is written with its `;` and
scanned is found again, clause for clause. -/
theorem scan_render {o : Outline} (h : o.WellFormed) (ht : o.terminated = true) :
    scan o.render = o := by
  have hspaced := h.singleSpaced
  have hcollapse := Text.singleSpaced_iff.1 hspaced
  have hsemi := semicolon_not_mem_collapse fun c hc => (h.solid c hc).no_semicolon
  have hrender : o.render = Text.join [' '] (o.clauses.map writeClause) ++ [';'] := by
    rw [render_terminated ht, hcollapse]
  have hend : Text.trimEnd (Text.join [' '] (o.clauses.map writeClause))
      = Text.join [' '] (o.clauses.map writeClause) := by
    exact Text.dropEnd_eq_self fun c hc => hspaced.last_not_blank hc
  have hconcat := hspaced.concat (show isBlank ';' = false by decide)
  have hclauses : clausesOf (Text.join [' '] (o.clauses.map writeClause)) = o.clauses := by
    have hahead : ∀ c ∈ o.clauses, ClauseKind.leading.rank < c.kind.rank := by
      intro c hc
      have hkind := h.no_leading c hc
      cases hk : c.kind with
      | leading => exact absurd hk hkind
      | _ => decide
    have hstart : Keyword.mayStartAfter none = true := rfl
    have hsplit := split_clauses hstart hahead h.ordered h.solid
    rw [clausesOf, hsplit]
    rfl
  have hsemi' : ';' ∉ Text.join [' '] (o.clauses.map writeClause) := hcollapse ▸ hsemi
  have hscan : (scan o.render).clauses = o.clauses := by
    rw [scan_clauses, hrender, bodyOf_concat_semicolon hconcat hsemi', hend, hclauses]
  have hterm : (scan o.render).terminated = o.terminated := by
    rw [hrender, scan_terminated hconcat, ht]
  exact Outline.ext hscan hterm

end Outline

end SqlScribe
