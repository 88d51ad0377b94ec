import SqlScribe.Proofs.Plan.Outline
import SqlScribe.Proofs.Text.Words

/-!
# Literals in a statement

What becomes of the literals of a request in the statement that answers it: layout is collapsed
inside of quotes as well as outside of them. Main statements:

* `join_tokens_inj`: words and quoted texts with spaces between them can be told apart again;
* `collapse_conditions`: conditions, collapsed, are written with their literals squeezed;
* `Request.build_settled`: the statement of a request is that of its settled literals, written;
* `Request.build_text`: which literals of a request stand in its statement as they are, and which
  requests have the same one.
-/

namespace SqlScribe

open Outline (Compact)

/-! ## Tokens -/

/-- A word without quotes, or a text without quotes between two of them. -/
inductive IsToken : Text → Prop
  | word {w : Text} (hne : w ≠ []) (h : ∀ c ∈ w, isBlank c = false ∧ c ≠ '\'') : IsToken w
  | quoted {u : Text} (h : '\'' ∉ u) : IsToken ('\'' :: (u ++ ['\'']))

/-- Nothing, or something behind a space. -/
def BehindSpace (r : Text) : Prop := ∀ c, r.head? = some c → c = ' '

theorem IsToken.ne_nil {a : Text} (h : IsToken a) : a ≠ [] := by
  cases h with
  | word hne _ => exact hne
  | quoted _ => exact List.cons_ne_nil _ _

/-- No token begins another one. -/
theorem IsToken.eq_of_append {a b r s : Text} (ha : IsToken a) (hb : IsToken b) (hr : BehindSpace r)
    (hs : BehindSpace s) (h : a ++ r = b ++ s) : a = b := by
  have hrun : ∀ {w v : Text}, (∀ c ∈ w, isBlank c = false ∧ c ≠ '\'') → BehindSpace v →
      (w ++ v).takeWhile (fun c => !isBlank c) = w := fun hw hv =>
    Text.takeWhile_append_of_head (fun c hc => by simp [(hw c hc).1]) fun c hc =>
      hv c hc ▸ by decide
  have hquote : ∀ {w u v v' : Text}, w ≠ [] → (∀ c ∈ w, isBlank c = false ∧ c ≠ '\'') →
      w ++ v ≠ '\'' :: (u ++ ['\'']) ++ v' := by
    intro w u v v' hne hw heq
    obtain ⟨c, w, rfl⟩ := List.exists_cons_of_ne_nil hne
    exact (hw c List.mem_cons_self).2 (List.cons.inj heq).1
  cases ha with
  | word hne hw =>
    cases hb with
    | word _ hv => rw [← hrun hw hr, h, hrun hv hs]
    | quoted _ => exact absurd h (hquote hne hw)
  | @quoted u hu =>
    cases hb with
    | word hne hv => exact absurd h.symm (hquote hne hv)
    | @quoted v hv =>
      have hinner : ∀ {u r : Text}, '\'' ∉ u →
          (u ++ '\'' :: r).takeWhile (· != '\'') = u := fun hu =>
        Text.takeWhile_append_of_head
          (fun c hc => bne_iff_ne.2 fun heq : c = '\'' => hu (heq ▸ hc))
          fun c hc => Option.some.inj hc ▸ rfl
      have htail : u ++ '\'' :: r = v ++ '\'' :: s := by simpa using h
      have htake := congrArg (List.takeWhile (· != '\'')) htail
      rw [hinner hu, hinner hv] at htake
      rw [htake]

/-- **Tokens with spaces between them** can be told apart again. -/
theorem join_tokens_inj {ts us : List Text} (ht : ∀ t ∈ ts, IsToken t) (hu : ∀ u ∈ us, IsToken u)
    (h : Text.join [' '] ts = Text.join [' '] us) : ts = us := by
  have hsplit : ∀ (t : Text) (ts : List Text), ∃ r, BehindSpace r ∧
      Text.join [' '] (t :: ts) = t ++ r ∧
      (r = [] ↔ ts = []) ∧ (ts ≠ [] → r = ' ' :: Text.join [' '] ts) := by
    intro t ts
    by_cases hts : ts = []
    · subst hts
      exact ⟨[], by simp [BehindSpace], (List.append_nil t).symm, by simp, by simp⟩
    · exact ⟨' ' :: Text.join [' '] ts, fun c hc => (Option.some.inj hc).symm,
        by rw [Text.join_cons _ _ hts, List.append_assoc]; rfl, by simp [hts], fun _ => rfl⟩
  induction ts generalizing us with
  | nil =>
    cases us with
    | nil => rfl
    | cons u us =>
      exact absurd h.symm
        (Text.join_ne_nil (List.cons_ne_nil u us) fun v hv => (hu v hv).ne_nil)
  | cons t ts ih =>
    cases us with
    | nil => exact absurd h (Text.join_ne_nil (List.cons_ne_nil t ts) fun v hv => (ht v hv).ne_nil)
    | cons u us =>
      obtain ⟨hfirst, hts⟩ := List.forall_mem_cons.1 ht
      obtain ⟨hfirst', hus⟩ := List.forall_mem_cons.1 hu
      obtain ⟨r, hr, hjoin, hnil, hrest⟩ := hsplit t ts
      obtain ⟨s, hs, hjoin', hnil', hrest'⟩ := hsplit u us
      rw [hjoin, hjoin'] at h
      obtain rfl := hfirst.eq_of_append hfirst' hr hs h
      obtain rfl := List.append_cancel_left h
      by_cases hempty : ts = []
      · rw [hempty, hnil'.1 (hnil.2 hempty)]
      · have hrest := (hrest hempty).symm.trans (hrest' fun hus => hempty (hnil.1 (hnil'.2 hus)))
        rw [ih hts hus (List.cons.inj hrest).2]

/-! ## Quoted texts -/

namespace Text

/-- A quoted text is squeezed when it is collapsed. -/
theorem collapse_quoted (t : Text) : collapse ("'" ++ t ++ "'") = "'" ++ squeeze t ++ "'" := by
  have hsqueeze : squeeze ('\'' :: (t ++ ['\''])) = '\'' :: (squeeze t ++ ['\'']) := by
    have hhead : ∀ c, ['\''].head? = some c → isBlank c = false := by simp; decide
    rw [squeeze, if_neg (by decide), squeeze_append (.inr hhead)]
    rfl
  have htrim : trim ('\'' :: (squeeze t ++ ['\''])) = '\'' :: (squeeze t ++ ['\'']) :=
    trim_eq_self (fun c hc => Option.some.inj hc ▸ by decide) fun c hc => by
      rw [← List.cons_append, List.getLast?_concat] at hc
      exact Option.some.inj hc ▸ by decide
  exact (collapse_eq_trim_squeeze _).trans ((congrArg trim hsqueeze).trans htrim)

theorem singleSpaced_quoted_iff {t : Text} : SingleSpaced ("'" ++ t ++ "'") ↔
    (∀ c ∈ t, isBlank c = true → c = ' ') ∧ t.IsChain fun c d => c = ' ' → d ≠ ' ' := by
  constructor
  · intro h
    exact ⟨fun c hc => h.only_spaces c (by simp [hc]),
      (List.isChain_append.1 (List.isChain_append.1 h.no_double).1).2.1⟩
  · rintro ⟨hspaces, hchain⟩
    refine ⟨fun c hc hblank => ?_, by simp, by rw [List.getLast?_append]; simp, ?_⟩
    · simp only [List.mem_append] at hc
      rcases hc with (hc | hc) | hc
      · exact absurd hblank (by rw [List.mem_singleton.1 hc]; decide)
      · exact hspaces c hc hblank
      · exact absurd hblank (by rw [List.mem_singleton.1 hc]; decide)
    · refine List.isChain_append.2
        ⟨List.isChain_append.2 ⟨.singleton _, hchain, ?_⟩, .singleton _, ?_⟩
      · intro c hc d _ hspace
        obtain rfl : '\'' = c := Option.some.inj hc
        exact absurd hspace (by decide)
      · intro c _ d hd _
        obtain rfl : '\'' = d := Option.some.inj hd
        decide

end Text

/-! ## Literals -/

namespace Literal

/-- A literal without blanks other than single spaces. -/
def Tidy : Literal → Prop
  | text t => (∀ c ∈ t, isBlank c = true → c = ' ') ∧ t.IsChain fun c d => c = ' ' → d ≠ ' '
  | _ => True

/-- The literal with every run of blanks in a text made one space. -/
def settled : Literal → Literal
  | text t => text (Text.squeeze t)
  | l => l

theorem isWord_integer (n : Int) : ∀ c ∈ Text.ofInt n, isBlank c = false ∧ c ≠ '\'' := by
  have hdigit : ∀ {c : Char}, c.isDigit = true → isBlank c = false ∧ c ≠ '\'' := fun hc =>
    ne_sign_of_isIdentifierChar (isIdentifierChar_of_isDigit hc) (by decide)
  intro c hc
  rw [Text.ofInt] at hc
  split at hc
  · rcases List.mem_cons.1 hc with rfl | hc
    · decide
    · exact hdigit (isDigit_of_mem_ofNat hc)
  · exact hdigit (isDigit_of_mem_ofNat hc)

theorem isWord_date {d : Date} {c : Char} (h : c ∈ d.text) : isBlank c = false ∧ c ≠ '\'' := by
  rcases Date.mem_text h with hdigit | rfl | rfl
  · exact ne_sign_of_isIdentifierChar (isIdentifierChar_of_isDigit hdigit) (by decide)
  · decide
  · decide

/-- A literal of one word with its quotes, if it has any, stays as it is when it is collapsed. -/
theorem collapse_sql (l : Literal) : Text.collapse l.sql = l.settled.sql := by
  cases l with
  | integer n => exact (solid_ofInt n).collapse_eq
  | text t => exact Text.collapse_quoted t
  | date d =>
    refine Text.singleSpaced_iff.1 (Text.IsWord.singleSpaced ⟨by simp [sql], fun c hc => ?_⟩)
    simp only [sql, List.mem_append] at hc
    rcases hc with (hc | hc) | hc
    · exact List.mem_singleton.1 hc ▸ by decide
    · exact (isWord_date hc).1
    · exact List.mem_singleton.1 hc ▸ by decide

/-- The tidy literals are those that are written single-spaced. -/
theorem singleSpaced_sql_iff (l : Literal) : Text.SingleSpaced l.sql ↔ l.Tidy := by
  cases l with
  | text t => exact Text.singleSpaced_quoted_iff
  | integer n => exact iff_of_true (Text.singleSpaced_iff.2 (integer n).collapse_sql) trivial
  | date d => exact iff_of_true (Text.singleSpaced_iff.2 (date d).collapse_sql) trivial

theorem settled_sql_eq_iff (l : Literal) : l.settled.sql = l.sql ↔ l.Tidy := by
  rw [← collapse_sql, ← Text.singleSpaced_iff, singleSpaced_sql_iff]

theorem safe_settled {l : Literal} (h : l.Safe) : l.settled.Safe := by
  cases l with
  | text t =>
    intro c hc
    rcases Text.mem_of_mem_squeeze hc with rfl | hc
    · decide
    · exact h c hc
  | integer n => trivial
  | date d => trivial

theorem literalFault?_settled {column : Text} {kind : ColumnKind} {l : Literal}
    (h : literalFault? column kind l = none) : literalFault? column kind l.settled = none := by
  obtain ⟨hsafe, hsuits⟩ := literalFault?_eq_none_iff.1 h
  refine literalFault?_eq_none_iff.2 ⟨safe_settled hsafe, ?_⟩
  cases l <;> exact hsuits

/-- A literal in a single-spaced text is tidy. -/
theorem tidy_of_infix {l : Literal} {t : Text} (h : Text.SingleSpaced t) (hl : l.sql <:+: t) :
    l.Tidy := by
  cases l with
  | text u =>
    have hu : u <:+: t := (List.infix_append ['\''] u ['\'']).trans hl
    exact ⟨fun c hc => h.only_spaces c (hu.subset hc), h.no_double.infix hu⟩
  | integer n => trivial
  | date d => trivial

/-- A safe literal is a token. -/
theorem isToken_sql {l : Literal} (h : l.Safe) : IsToken l.sql := by
  cases l with
  | integer n => exact .word (solid_ofInt n).ne_nil (isWord_integer n)
  | text t => exact .quoted fun hq => absurd (h _ hq) (by decide)
  | date d => exact .quoted fun hq => (isWord_date hq).2 rfl

end Literal

/-! ## Conditions -/

/-- An operand with its literals settled. -/
def Operand.settled : Operand → Operand
  | .single l => .single l.settled
  | .range low high => .range low.settled high.settled

theorem Operand.literals_settled (o : Operand) :
    o.settled.literals = o.literals.map Literal.settled := by
  cases o <;> rfl

namespace Predicate

/-- A condition with its literals settled. -/
def settled (q : Predicate) : Predicate := { q with operand := q.operand.settled }

/-- A condition that can be written: a name of identifier characters and safe literals. -/
def Writable (q : Predicate) : Prop :=
  isIdentifier q.column = true ∧ ∀ l ∈ q.operand.literals, l.Safe

theorem Writable.settled {q : Predicate} (h : q.Writable) : q.settled.Writable := by
  refine ⟨h.1, fun l hl => ?_⟩
  rw [Predicate.settled, Operand.literals_settled] at hl
  obtain ⟨m, hm, rfl⟩ := List.mem_map.1 hl
  exact Literal.safe_settled (h.2 m hm)

theorem sql_mem_pieces {q : Predicate} {l : Literal} (h : l ∈ q.operand.literals) :
    l.sql ∈ q.pieces := by
  obtain ⟨column, op, operand⟩ := q
  cases operand <;> simp only [pieces, Operand.literals, List.mem_cons, List.not_mem_nil,
    or_false] at h ⊢ <;>
    grind

end Predicate

/-- A name of identifier characters is a token. -/
theorem isToken_of_isIdentifier {w : Text} (h : isIdentifier w = true) : IsToken w := by
  refine .word (compact_of_isIdentifier h).ne_nil fun c hc => ?_
  exact ne_sign_of_isIdentifierChar (isIdentifierChar_of_isIdentifier h c hc) (by decide)

theorem Operator.isToken_symbol (op : Operator) : IsToken op.symbol := by
  cases op <;> exact .word (by decide) (by decide)

namespace Predicate

/-- The pieces of a condition are tokens. -/
theorem isToken_of_mem_pieces {q : Predicate} (h : q.Writable) : ∀ t ∈ q.pieces, IsToken t :=
  forall_mem_pieces (isToken_of_isIdentifier h.1) Operator.isToken_symbol
    (isToken_of_isIdentifier (by decide)) fun l hl => Literal.isToken_sql (h.2 l hl)

/-- The pieces of a condition are compact when they are collapsed. -/
theorem compact_collapse_of_mem_pieces {q : Predicate} (h : q.Writable) :
    ∀ t ∈ q.pieces, Compact (Text.collapse t) := by
  refine forall_mem_pieces ?_ (fun op => ?_) ?_ fun l hl => ?_
  · have hcolumn := compact_of_isIdentifier h.1
    exact hcolumn.collapse_eq.symm ▸ hcolumn
  · exact (solid_collapse_of_solid op.solid_symbol).compact
  · exact (solid_collapse_of_solid (solid_of_isPlainName (by decide))).compact
  · exact (Literal.solid_collapse (h.2 l hl)).compact

/-- The pieces of a condition, collapsed, are those of the settled one. -/
theorem pieces_settled {q : Predicate} (h : q.Writable) :
    q.settled.pieces = q.pieces.map Text.collapse := by
  obtain ⟨column, op, operand⟩ := q
  have hcolumn : Text.collapse column = column := (compact_of_isIdentifier h.1).collapse_eq
  cases operand with
  | single l =>
    simp [settled, Operand.settled, pieces, hcolumn, op.solid_symbol.collapse_eq,
      Literal.collapse_sql]
  | range low high =>
    have hbetween : Text.collapse "BETWEEN" = ("BETWEEN" : Text) := by decide
    have hand : Text.collapse "AND" = ("AND" : Text) := by decide
    simp only [settled, Operand.settled, pieces, hcolumn, hbetween, hand, Literal.collapse_sql,
      List.map_cons, List.map_nil]

end Predicate

theorem Table.predicateFault?_settled {t : Table} {q : Predicate} (h : t.predicateFault? q = none) :
    t.predicateFault? q.settled = none := by
  obtain ⟨column, op, operand⟩ := q
  unfold predicateFault? at h ⊢
  rw [Predicate.settled]
  cases hc : t.column? column with
  | none => simp [hc] at h
  | some c =>
    cases operand <;> cases op <;>
      simp_all [Operand.settled, Literal.literalFault?_settled]

/-- The pieces conditions are written with, between spaces. -/
def conditionPieces : List Predicate → List Text
  | [] => []
  | q :: qs => q.pieces ++ qs.flatMap fun p => ("AND" : Text) :: p.pieces

theorem join_conditionPieces (qs : List Predicate) :
    Text.join " AND " (qs.map Predicate.sql) = Text.join [' '] (conditionPieces qs) := by
  cases qs with
  | nil => rfl
  | cons q qs =>
    induction qs generalizing q with
    | nil => rw [conditionPieces, List.flatMap_nil, List.append_nil, ← q.sql_eq]; rfl
    | cons p qs ih =>
      have hand : (" AND " : Text) = [' '] ++ ("AND" ++ [' ']) := rfl
      rw [List.map_cons, Text.join_cons _ _ (by simp), ih p, conditionPieces, conditionPieces,
        List.flatMap_cons, Text.join_append _ q.pieces_ne_nil (by simp), ← q.sql_eq,
        List.cons_append, Text.join_cons _ ("AND" : Text) (by simp [p.pieces_ne_nil]), hand]
      simp only [List.append_assoc]

theorem mem_conditionPieces_of_mem {qs : List Predicate} {q : Predicate} (hq : q ∈ qs) {t : Text}
    (h : t ∈ q.pieces) : t ∈ conditionPieces qs := by
  obtain ⟨p, ps, rfl⟩ := List.exists_cons_of_ne_nil (List.ne_nil_of_mem hq)
  rcases List.mem_cons.1 hq with rfl | hq
  · exact List.mem_append_left _ h
  · exact List.mem_append_right _ (List.mem_flatMap.2 ⟨q, hq, List.mem_cons_of_mem _ h⟩)

/-- What holds of the pieces of conditions one by one holds of all pieces of them. -/
theorem forall_mem_conditionPieces {P : Text → Prop} {qs : List Predicate} (hand : P "AND")
    (h : ∀ q ∈ qs, ∀ t ∈ q.pieces, P t) : ∀ t ∈ conditionPieces qs, P t := by
  cases qs with
  | nil => exact fun _ ht => absurd ht List.not_mem_nil
  | cons q qs =>
    obtain ⟨hq, hqs⟩ := List.forall_mem_cons.1 h
    refine List.forall_mem_append.2 ⟨hq, fun t ht => ?_⟩
    obtain ⟨p, hp, ht⟩ := List.mem_flatMap.1 ht
    rcases List.mem_cons.1 ht with rfl | ht
    · exact hand
    · exact hqs p hp t ht

theorem isToken_of_mem_conditionPieces {qs : List Predicate} (h : ∀ q ∈ qs, q.Writable) :
    ∀ t ∈ conditionPieces qs, IsToken t :=
  forall_mem_conditionPieces (isToken_of_isIdentifier (by decide)) fun q hq =>
    Predicate.isToken_of_mem_pieces (h q hq)

theorem compact_collapse_of_mem_conditionPieces {qs : List Predicate} (h : ∀ q ∈ qs, q.Writable) :
    ∀ t ∈ conditionPieces qs, Compact (Text.collapse t) :=
  forall_mem_conditionPieces (solid_collapse_of_solid (solid_of_isPlainName (by decide))).compact
    fun q hq => Predicate.compact_collapse_of_mem_pieces (h q hq)

theorem conditionPieces_settled {qs : List Predicate} (h : ∀ q ∈ qs, q.Writable) :
    conditionPieces (qs.map Predicate.settled) = (conditionPieces qs).map Text.collapse := by
  have hand : Text.collapse "AND" = ("AND" : Text) := by decide
  cases qs with
  | nil => rfl
  | cons q qs =>
    obtain ⟨hq, hqs⟩ := List.forall_mem_cons.1 h
    rw [List.map_cons, conditionPieces, conditionPieces, List.map_append,
      Predicate.pieces_settled hq, List.flatMap_map, List.map_flatMap]
    refine congrArg (_ ++ ·) (List.flatMap_congr fun p hp => ?_)
    rw [List.map_cons, hand, Predicate.pieces_settled (hqs p hp)]

theorem writable_settled {qs : List Predicate} (h : ∀ q ∈ qs, q.Writable) :
    ∀ q ∈ qs.map Predicate.settled, q.Writable := List.forall_mem_map.2 fun q hq => (h q hq).settled

/-- **Conditions, collapsed,** are written with their literals squeezed. -/
theorem collapse_conditions {qs : List Predicate} (h : ∀ q ∈ qs, q.Writable) :
    Text.collapse (Text.join " AND " (qs.map Predicate.sql))
      = Text.join " AND " ((qs.map Predicate.settled).map Predicate.sql) := by
  rw [join_conditionPieces, join_conditionPieces, conditionPieces_settled h, Text.collapse_join]
  intro t ht hwords
  have hne := (compact_collapse_of_mem_conditionPieces h t ht).ne_nil
  rw [Text.collapse, hwords] at hne
  exact hne rfl

/-- Conditions with their literals squeezed are compact. -/
theorem compact_conditions {qs : List Predicate} (h : ∀ q ∈ qs, q.Writable) (hne : qs ≠ []) :
    Compact (Text.join " AND " ((qs.map Predicate.settled).map Predicate.sql)) := by
  obtain ⟨q, qs, rfl⟩ := List.exists_cons_of_ne_nil hne
  rw [join_conditionPieces, conditionPieces_settled h]
  refine Compact.join Outline.separates_space ?_ (List.forall_mem_map.2 ?_)
  · simp [conditionPieces, q.pieces_ne_nil]
  · exact compact_collapse_of_mem_conditionPieces h

/-- Two conditions that differ in nothing but literals. -/
structure Predicate.Alike (q p : Predicate) : Prop where
  column : q.column = p.column
  operator : q.operator = p.operator
  count : q.operand.literals.length = p.operand.literals.length

namespace Predicate.Alike

theorem refl_settled (q : Predicate) : q.Alike q.settled :=
  ⟨rfl, rfl, by simp [Predicate.settled, Operand.literals_settled]⟩

theorem settled {q p : Predicate} (h : q.Alike p) : q.settled.Alike p.settled :=
  ⟨h.column, h.operator, by simpa [Predicate.settled, Operand.literals_settled] using h.count⟩

theorem pieces {q p : Predicate} (h : q.Alike p) : q.pieces.length = p.pieces.length ∧
    (q.pieces = p.pieces ↔ q.operand.literals.map Literal.sql
      = p.operand.literals.map Literal.sql) := by
  obtain ⟨hcolumn, hoperator, hcount⟩ := h
  obtain ⟨column, op, operand⟩ := q
  obtain ⟨column', op', operand'⟩ := p
  obtain rfl : column = column' := hcolumn
  obtain rfl : op = op' := hoperator
  cases operand <;> cases operand' <;> simp_all [Predicate.pieces, Operand.literals]

end Predicate.Alike

/-- The literals of conditions, from left to right. -/
def literalsOf (qs : List Predicate) : List Literal := qs.flatMap fun q => q.operand.literals

theorem literalsOf_settled (qs : List Predicate) :
    literalsOf (qs.map Predicate.settled) = (literalsOf qs).map Literal.settled := by
  rw [literalsOf, literalsOf, List.flatMap_map, List.map_flatMap]
  exact List.flatMap_congr fun q _ => q.operand.literals_settled

/-- Pieces and literals of two conditions and of what follows them are compared one by one. -/
theorem Predicate.Alike.append_iff {q p : Predicate} (h : q.Alike p) {ts us : List Text}
    {qs ps : List Predicate} (hrest : ts = us ↔
      (literalsOf qs).map Literal.sql = (literalsOf ps).map Literal.sql) :
    q.pieces ++ ts = p.pieces ++ us ↔
      (literalsOf (q :: qs)).map Literal.sql = (literalsOf (p :: ps)).map Literal.sql := by
  obtain ⟨hlength, hpieces⟩ := h.pieces
  have hsplit : ∀ {α : Type} {as bs cs ds : List α}, as.length = bs.length →
      (as ++ cs = bs ++ ds ↔ as = bs ∧ cs = ds) := fun hl =>
    ⟨fun heq => List.append_inj heq hl, fun heq => heq.1 ▸ heq.2 ▸ rfl⟩
  simp only [literalsOf, List.flatMap_cons, List.map_append] at hrest ⊢
  rw [hsplit hlength, hsplit (by simpa using h.count), hpieces, hrest]

theorem conditionPieces_eq_iff {qs ps : List Predicate} (h : List.Forall₂ Predicate.Alike qs ps) :
    conditionPieces qs = conditionPieces ps ↔
      (literalsOf qs).map Literal.sql = (literalsOf ps).map Literal.sql := by
  have hrest : ∀ {qs ps : List Predicate}, List.Forall₂ Predicate.Alike qs ps →
      ((qs.flatMap fun p => ("AND" : Text) :: p.pieces)
        = (ps.flatMap fun p => ("AND" : Text) :: p.pieces) ↔
        (literalsOf qs).map Literal.sql = (literalsOf ps).map Literal.sql) := by
    intro qs ps h
    induction h with
    | nil => exact Iff.rfl
    | cons hq _ ih =>
      simp only [List.flatMap_cons, List.cons_append, List.cons_inj_right]
      exact hq.append_iff ih
  cases h with
  | nil => exact Iff.rfl
  | cons hq hqs => exact hq.append_iff (hrest hqs)

/-- **Conditions that differ in nothing but literals** are written alike exactly if their literals
are. -/
theorem conditions_eq_iff {qs ps : List Predicate} (hqs : ∀ q ∈ qs, q.Writable)
    (hps : ∀ p ∈ ps, p.Writable) (h : List.Forall₂ Predicate.Alike qs ps) :
    Text.join " AND " (qs.map Predicate.sql) = Text.join " AND " (ps.map Predicate.sql) ↔
      (literalsOf qs).map Literal.sql = (literalsOf ps).map Literal.sql := by
  rw [join_conditionPieces, join_conditionPieces, ← conditionPieces_eq_iff h]
  exact ⟨join_tokens_inj (isToken_of_mem_conditionPieces hqs) (isToken_of_mem_conditionPieces hps),
    congrArg _⟩

/-! ## Statements -/

/-- Conditions that are collapsed to the same text make the same outline. -/
theorem SelectParts.outline_with_conditions {p : SelectParts} {cs : List Text}
    (hempty : cs.isEmpty = p.conditions.isEmpty)
    (h : Text.collapse (Text.join " AND " cs) = Text.collapse (Text.join " AND " p.conditions)) :
    outline { p with conditions := cs } = p.outline := by
  have hwhere : ((condition? { p with conditions := cs }).map (Clause.mk .where)).toList.map
        (fun c => Clause.mk c.kind (Text.collapse c.body))
      = (p.condition?.map (Clause.mk .where)).toList.map
        fun c => Clause.mk c.kind (Text.collapse c.body) := by
    rw [condition?, condition?, hempty]
    split
    · rfl
    · exact congrArg (fun b => [Clause.mk .where b]) h
  simp only [outline, clauses, List.map_append, hwhere]
  rfl

/-- The conditions of a statement stand between the rest of it. -/
theorem SelectParts.sql_around (p : SelectParts) : ∃ front back : Text, ∀ cs : List Text, cs ≠ [] →
    sql { p with conditions := cs } = front ++ Text.join " AND " cs ++ back := by
  obtain ⟨table, projection, conditions, groupBy, orderBy, limit⟩ := p
  refine ⟨"SELECT " ++ shown ⟨table, projection, conditions, groupBy, orderBy, limit⟩
      ++ " FROM " ++ table ++ " WHERE ",
    clause " GROUP BY " groupBy ++ clause " ORDER BY " orderBy
      ++ clause " LIMIT " (limit.map Text.ofNat), fun cs hcs => ?_⟩
  have hcondition : condition? ⟨table, projection, cs, groupBy, orderBy, limit⟩
      = some (Text.join " AND " cs) := by
    rw [condition?, if_neg (by simpa using hcs)]
  unfold sql
  simp only [hcondition, clause, shown, List.append_assoc]

namespace Request

/-- The request with the literals of its conditions settled. -/
def settled (r : Request) : Request := { r with conditions := r.conditions.map Predicate.settled }

theorem parts_planOver_with (r : Request) (intent : Intent) (t : Table) (cs : List Predicate) :
    (planOver { r with conditions := cs } intent t).parts
      = { (r.planOver intent t).parts with conditions := cs.map Predicate.sql } := by
  rw [parts_planOver, parts_planOver]
  cases intent <;> rfl

/-- The conditions of a request stand between the rest of its plan. -/
theorem sql_planOver (r : Request) (intent : Intent) (t : Table) : ∃ front back : Text,
    ∀ cs : List Predicate, cs ≠ [] → (planOver { r with conditions := cs } intent t).sql
      = front ++ Text.join " AND " (cs.map Predicate.sql) ++ back := by
  obtain ⟨front, back, haround⟩ := (r.planOver intent t).parts.sql_around
  refine ⟨front, back, fun cs hcs => ?_⟩
  rw [Plan.sql, parts_planOver_with, haround _ (by simpa using hcs)]

theorem plan_settled {s : Schema} {r : Request} {intent : Intent} {t : Table}
    (ht : s.table? r.table = some t) (h : r.fault? intent t = none) :
    r.settled.plan intent s = .ok (r.settled.planOver intent t) := by
  obtain ⟨hconditions, hintent⟩ := fault?_eq_none_iff.1 h
  exact plan_eq_ok_iff.2 ⟨t, ht, fault?_eq_none_iff.2 ⟨List.forall_mem_map.2 fun q hq =>
    Table.predicateFault?_settled (hconditions q hq), hintent⟩, rfl⟩

/-- The outline of a plan does not see whether the literals are settled. -/
theorem outline_planOver_settled {r : Request} {intent : Intent} {t : Table}
    (h : r.Writable isIdentifier intent) :
    (r.settled.planOver intent t).parts.outline = (r.planOver intent t).parts.outline := by
  have hparts : (r.planOver intent t).parts.conditions = r.conditions.map Predicate.sql := by
    rw [parts_planOver]
    cases intent <;> rfl
  rw [settled, parts_planOver_with]
  refine SelectParts.outline_with_conditions (by simp [hparts]) ?_
  rw [hparts, ← collapse_conditions h.conditions, Text.collapse_collapse]

/-- The plan of a settled request is compact, clause by clause. -/
theorem compact_planOver_settled {r : Request} {intent : Intent} {t : Table}
    (h : r.Writable isIdentifier intent) (hname : t.name = r.table) :
    ∀ c ∈ (r.settled.planOver intent t).parts.clauses, Compact c.body := by
  have hstar : Compact ['*'] := (Outline.solid_signs (by decide) (by decide)).compact
  have htable : Compact t.name := hname ▸ compact_of_isIdentifier h.table
  have hwhere : r.settled.conditions.map Predicate.sql ≠ [] →
      Compact (Text.join " AND " (r.settled.conditions.map Predicate.sql)) := fun hne =>
    compact_conditions h.conditions (by simpa [settled] using hne)
  have hlist : ∀ {ts : List Text}, (∀ t ∈ ts, Compact t) → ts ≠ [] →
      Compact (Text.join ", " ts) := fun hts hne => Compact.join Outline.separates_comma hne hts
  rw [parts_planOver]
  cases intent with
  | select =>
    refine SelectParts.forall_mem_clauses hstar (hlist fun c hc => ?_) htable hwhere (by simp)
      (fun o ho => ?_) fun n _ => (solid_ofNat n).compact
    · exact compact_of_isIdentifier (h.columns rfl c hc)
    · obtain ⟨o, horder, rfl⟩ := Option.map_eq_some_iff.1 ho
      exact Order.compact_sql (h.order rfl o horder)
  | count =>
    refine SelectParts.forall_mem_clauses hstar (hlist ?_) htable hwhere (by simp) (by simp)
      (by simp)
    exact List.forall_mem_singleton.2 AggregateCall.solid_count.compact
  | aggregate a =>
    have hgroup : ∀ g, r.groupBy = some g → Compact g := fun g hg =>
      compact_of_isIdentifier (h.groupBy rfl g hg)
    refine SelectParts.forall_mem_clauses hstar (hlist ?_) htable hwhere hgroup (by simp) (by simp)
    refine List.forall_mem_append.2 ⟨fun g hg => hgroup g (Option.mem_toList.1 hg), ?_⟩
    exact List.forall_mem_singleton.2 (AggregateCall.compact_ofColumn (h.metric rfl))

/-- **The statement of a plan** is the plan of the settled request, written, and its terminator. -/
theorem build_settled {s : Schema} (hs : s.namesSpelled = true) {r : Request} {intent : Intent}
    {p : Plan} (h : r.plan intent s = .ok p) : ∃ t, s.table? r.table = some t ∧
      r.Writable isIdentifier intent ∧ p = r.planOver intent t ∧
      r.settled.plan intent s = .ok (r.settled.planOver intent t) ∧
      r.build intent s
        = .ok ⟨(r.settled.planOver intent t).sql ++ [';'], .canonical, .ruleGenerated⟩ ∧
      Text.SingleSpaced (r.settled.planOver intent t).sql := by
  obtain ⟨t, ht, hfault, rfl⟩ := plan_eq_ok_iff.1 h
  obtain ⟨hnames, hname⟩ := Schema.namesAll_of_table? hs ht
  have hwritable := writable_of_fault? hnames hname hfault
  have hcompact : Compact (r.settled.planOver intent t).sql :=
    SelectParts.compact_sql (compact_planOver_settled hwritable hname)
  -- both plans have the same outline, and that of the settled request is written as it is
  have hcollapse : Text.collapse (r.planOver intent t).sql = (r.settled.planOver intent t).sql := by
    rw [← hcompact.collapse_eq, Plan.sql, Plan.sql, SelectParts.collapse_sql,
      SelectParts.collapse_sql, outline_planOver_settled hwritable]
  have hnormalize : Statement.normalize (r.planOver intent t).sql
      = (r.settled.planOver intent t).sql ++ [';'] := by
    rw [Statement.normalize_eq_collapse (hcollapse ▸ hcompact.no_semicolon), hcollapse]
  exact ⟨t, ht, hwritable, rfl, plan_settled ht hfault,
    build_eq_ok_iff.2 ⟨_, h, by rw [hnormalize]⟩,
    hcompact.spaced⟩

/-- Plans of requests that differ in nothing but the literals of their conditions are written alike
exactly if these are. -/
theorem sql_planOver_eq_iff {r : Request} {cs : List Predicate} (intent : Intent) (t : Table)
    (hr : ∀ q ∈ r.conditions, q.Writable) (hcs : ∀ q ∈ cs, q.Writable)
    (halike : List.Forall₂ Predicate.Alike r.conditions cs) :
    (r.planOver intent t).sql = (planOver { r with conditions := cs } intent t).sql ↔
      (literalsOf r.conditions).map Literal.sql = (literalsOf cs).map Literal.sql := by
  obtain ⟨front, back, haround⟩ := r.sql_planOver intent t
  by_cases hempty : cs = []
  · subst hempty
    have hnone := List.forall₂_nil_right_iff.1 halike
    have hself : ({ r with conditions := [] } : Request) = r := by rw [← hnone]
    rw [hself, hnone]
    exact iff_of_true rfl rfl
  · have hne : r.conditions ≠ [] := fun heq => by
      rw [heq, List.forall₂_nil_left_iff] at halike
      exact hempty halike
    rw [haround r.conditions hne, haround cs hempty, ← conditions_eq_iff hr hcs halike]
    exact ⟨fun heq => List.append_cancel_left (List.append_cancel_right heq),
      fun heq => by rw [heq]⟩

/-- A literal stands in the plan it belongs to. -/
theorem infix_sql_planOver (r : Request) (intent : Intent) (t : Table) {l : Literal}
    (hl : l ∈ literalsOf r.conditions) : l.sql <:+: (r.planOver intent t).sql := by
  obtain ⟨q, hq, hl⟩ := List.mem_flatMap.1 hl
  obtain ⟨front, back, haround⟩ := r.sql_planOver intent t
  have hinfix : l.sql <:+: Text.join " AND " (r.conditions.map Predicate.sql) := by
    rw [join_conditionPieces]
    exact Text.infix_join (mem_conditionPieces_of_mem hq (Predicate.sql_mem_pieces hl))
  rw [haround r.conditions (List.ne_nil_of_mem hq)]
  exact hinfix.trans (List.infix_append _ _ _)

/-- **The statement of a request.** When all names are made of identifier characters, reserved words
among them, the statement of an accepted request is its plan, written with every run of blanks in a
literal made one space, and the terminator. It is the plan as it is exactly if all literals of the
conditions are tidy, each literal stands in it as it is exactly if that one is tidy, and a request
that differs in nothing but literals has the same statement exactly if its settled literals are
written alike. -/
theorem build_text {s : Schema} (hs : s.namesSpelled = true) {r : Request} {intent : Intent}
    {p : Plan} (h : r.plan intent s = .ok p) : ∃ q st, r.settled.plan intent s = .ok q ∧
      r.build intent s = .ok st ∧ st.text = q.sql ++ [';'] ∧
      (st.text = p.sql ++ [';'] ↔ ∀ l ∈ literalsOf r.conditions, l.Tidy) ∧
      (∀ l ∈ literalsOf r.conditions, l.sql <:+: st.text ↔ l.Tidy) ∧
      ∀ (cs : List Predicate) (st' : Statement), List.Forall₂ Predicate.Alike r.conditions cs →
        build { r with conditions := cs } intent s = .ok st' →
        (st.text = st'.text ↔ (literalsOf r.conditions).map (fun l => l.settled.sql)
          = (literalsOf cs).map fun l => l.settled.sql) := by
  obtain ⟨t, ht, hwritable, rfl, hplan, hbuild, hspaced⟩ := build_settled hs h
  have hsettled : ∀ {cs ds : List Predicate}, List.Forall₂ Predicate.Alike cs ds →
      List.Forall₂ Predicate.Alike (cs.map Predicate.settled)
      (ds.map Predicate.settled) := fun halike =>
    List.forall₂_map_left_iff.2 (List.forall₂_map_right_iff.2 (halike.imp fun _ _ hq => hq.settled))
  have hliterals : ∀ cs, (literalsOf (cs.map Predicate.settled)).map Literal.sql
      = (literalsOf cs).map fun l => l.settled.sql := fun cs => by
    rw [literalsOf_settled, List.map_map]
    rfl
  refine ⟨_, _, hplan, hbuild, rfl, ?_, fun l hl => ?_, fun cs st' halike hbuild' => ?_⟩
  · have hself : (r.settled.planOver intent t).sql ++ [';'] = (r.planOver intent t).sql ++ [';'] ↔
        (r.planOver intent t).sql = (r.settled.planOver intent t).sql :=
      (List.append_left_inj _).trans eq_comm
    rw [hself, settled, sql_planOver_eq_iff intent t hwritable.conditions
      (writable_settled hwritable.conditions)
      (List.forall₂_map_right_iff.2 (List.forall₂_same.2 fun q _ => .refl_settled q)), hliterals]
    exact List.map_inj_left.trans (forall₂_congr fun l _ => eq_comm.trans l.settled_sql_eq_iff)
  · constructor
    · exact Literal.tidy_of_infix (hspaced.concat (by decide))
    · intro htidy
      have hmem : l.settled ∈ literalsOf r.settled.conditions := by
        rw [settled, literalsOf_settled]
        exact List.mem_map_of_mem hl
      rw [← l.settled_sql_eq_iff.2 htidy]
      exact (infix_sql_planOver r.settled intent t hmem).trans (List.prefix_append _ _).isInfix
  · obtain ⟨p, hp, -⟩ := build_eq_ok_iff.1 hbuild'
    obtain ⟨t', ht', hwritable', -, -, hbuilt, -⟩ := build_settled hs hp
    obtain rfl : t' = t := Option.some.inj (ht'.symm.trans ht)
    obtain rfl := Except.ok.inj (hbuilt.symm.trans hbuild')
    have hsame := sql_planOver_eq_iff (r := r.settled) intent t'
      (writable_settled hwritable.conditions)
      (writable_settled hwritable'.conditions) (hsettled halike)
    rw [← hliterals, ← hliterals]
    exact (List.append_left_inj _).trans hsame

/-- Rows under a condition whose text has one or more spaces between two letters. -/
def named (table column spaces : Text) : Request where
  table := table
  conditions := [.compare column .eq (.text (['a'] ++ spaces ++ ['b']))]

/-- A table and a column with the names of keywords. -/
def keywords : Schema := .ofTables [.ofColumns "order" "" [.required "limit" "TEXT"]]

theorem build_text_named : keywords.namesSpelled = true ∧
    ((named "order" "limit" "  ").plan .select keywords).isOk = true ∧
    List.Forall₂ Predicate.Alike (named "order" "limit" "  ").conditions
      (named "order" "limit" " ").conditions ∧
      ∃ st st', (named "order" "limit" "  ").build .select keywords = .ok st ∧
        (named "order" "limit" " ").build .select keywords = .ok st' ∧ st.text = st'.text := by
  have hspelled : keywords.namesSpelled = true := by decide +kernel
  have hplan : (named "order" "limit" "  ").plan .select keywords
      = .ok ((named "order" "limit" "  ").planOver .select ⟨"order", [], []⟩) := rfl
  have halike : List.Forall₂ Predicate.Alike (named "order" "limit" "  ").conditions
      (named "order" "limit" " ").conditions := .cons ⟨rfl, rfl, rfl⟩ .nil
  obtain ⟨q, st, -, hst, -, -, -, hsame⟩ := build_text hspelled hplan
  exact ⟨hspelled, rfl, halike, st, _, hst, rfl, (hsame _ _ halike rfl).2 (by decide +kernel)⟩

/-- A statement is not always the plan as it is: two spaces in a text are made one. -/
theorem not_build_text_verbatim : ¬ ∀ (s : Schema) (r : Request) (intent : Intent) (p : Plan)
    (st : Statement), s.namesPlain = true → r.plan intent s = .ok p → r.build intent s = .ok st →
      st.text = p.sql ++ [';'] := by
  intro h
  have hverbatim := h .humanResources (named "employees" "name" "  ") .select _ _
    (by decide +kernel) rfl rfl
  exact absurd hverbatim (by decide +kernel)

end Request

end SqlScribe
