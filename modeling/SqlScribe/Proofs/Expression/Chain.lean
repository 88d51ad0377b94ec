import SqlScribe.Proofs.Expression.Arguments
import SqlScribe.Proofs.Expression.Precedence

/-!
# Chains of operators

Expressions without parentheses: operands with binary operators between them. Main statements:

* `lexFrom_append`: a text is read token by token up to a sign that ends all of them;
* `uncut_of_lexFrom`: the commas of a chain stand in its literals;
* `Chain.operands_join_iff`: which chains are operands of `||` when they are put between them.
-/

namespace SqlScribe

/-! ## Reading texts -/

theorem lexFrom_cons_some {p q : Pending} {c : Char} (h : p.extend? c = some q) (t : Text) :
    lexFrom p (c :: t) = lexFrom q t := by
  rw [lexFrom, h]

theorem lexFrom_cons_none {p : Pending} {c : Char} (h : p.extend? c = none) (t : Text) :
    lexFrom p (c :: t) = p.tokens ++ lexFrom (.ofChar c) t := by
  rw [lexFrom, h]

theorem lex_cons (c : Char) (t : Text) : lex (c :: t) = lexFrom (.ofChar c) t :=
  lexFrom_cons_none (p := .nothing) rfl t

theorem lexFrom_mark (c : Char) (t : Text) :
    lexFrom (.mark c) t = (Pending.mark c).tokens ++ lex t := by
  cases t with
  | nil => exact (List.append_nil _).symm
  | cons d t => rfl

/-- A character that ends every token but a literal. -/
def isBreak (c : Char) : Bool := isBlank c || c == '(' || c == ')' || c == ','

theorem isBreak_of_mem_signs {s : Text} (hs : s ∈ signs) :
    ∀ c ∈ s, isBreak c = false ∧ c ≠ '\'' := by
  revert s
  decide

theorem isBreak_of_isNameChar {c : Char} (h : isNameChar c = true) :
    isBreak c = false ∧ c ≠ '\'' := by
  rw [isNameChar, Bool.or_eq_true, beq_iff_eq] at h
  rcases h with h | rfl
  · have hblank := isBlank_of_isIdentifierChar h
    have hne : ∀ d, isIdentifierChar d = false → c ≠ d := fun d hd heq =>
      absurd (heq ▸ h) (by simp [hd])
    simp [isBreak, hblank, hne '(' (by decide), hne ')' (by decide), hne ',' (by decide),
      hne '\'' (by decide)]
  · decide

namespace Pending

/-- What a token goes on with: neither a sign that ends it nor, outside of literals, a quote. -/
theorem extend?_cases {p q : Pending} {c : Char} (h : p.extend? c = some q) :
    (isBreak c = false ∧ c ≠ '\'' ∧ (∀ t, p ≠ literal t) ∧ ∀ t, q ≠ literal t) ∨
      (∃ t, p = literal t ∧ q = if c == '\'' then closed (t ++ [c]) else literal (t ++ [c])) ∨
        ∃ t, p = closed t ∧ c = '\'' ∧ q = literal (t ++ [c]) := by
  cases p with
  | nothing => exact absurd h (by simp [extend?])
  | mark d => exact absurd h (by simp [extend?])
  | word t =>
    rw [extend?] at h
    split at h
    · next hc =>
      obtain rfl := Option.some.inj h
      have hkept : isBreak c = false ∧ c ≠ '\'' := by
        rw [Bool.or_eq_true, Bool.and_eq_true, Bool.or_eq_true, beq_iff_eq, beq_iff_eq] at hc
        rcases hc with hc | ⟨-, rfl | rfl⟩
        · exact isBreak_of_isNameChar hc
        · decide
        · decide
      exact Or.inl ⟨hkept.1, hkept.2, by simp, by simp⟩
    · exact absurd h (by simp)
  | sign t =>
    rw [extend?] at h
    split at h
    · next hc =>
      obtain rfl := Option.some.inj h
      obtain ⟨hbreak, hquote⟩ := isBreak_of_mem_signs (List.contains_iff_mem.1 hc) c (by simp)
      exact Or.inl ⟨hbreak, hquote, by simp, by simp⟩
    · exact absurd h (by simp)
  | literal t => exact Or.inr (Or.inl ⟨t, rfl, (Option.some.inj h).symm⟩)
  | closed t =>
    rw [extend?] at h
    split at h
    · next hc => exact Or.inr (Or.inr ⟨t, rfl, by simpa using hc, (Option.some.inj h).symm⟩)
    · exact absurd h (by simp)

theorem extend?_of_isBreak {p : Pending} {c : Char} (hc : isBreak c = true)
    (hp : ∀ t, p ≠ literal t) :
    p.extend? c = none := by
  cases h : p.extend? c with
  | none => rfl
  | some q =>
    rcases extend?_cases h with ⟨hbreak, -⟩ | ⟨t, rfl, -⟩ | ⟨t, -, rfl, -⟩
    · exact absurd hc (by simp [hbreak])
    · exact absurd rfl (hp t)
    · exact absurd hc (by decide)

/-- Whether a literal is being read. -/
def isLiteral : Pending → Bool
  | literal _ => true
  | _ => false

theorem isLiteral_eq_false {p : Pending} (hp : ∀ t, p ≠ literal t) : p.isLiteral = false := by
  cases p with
  | literal t => exact absurd rfl (hp t)
  | _ => rfl

theorem ofChar_ne_literal {c : Char} (hc : c ≠ '\'') (t : Text) : ofChar c ≠ literal t := by
  unfold ofChar
  split
  · simp
  · split
    · simp
    · rw [if_neg (by simpa using hc)]
      split <;> simp

end Pending

/-- A text without stray signs is read up to a sign that ends all tokens. -/
theorem lexFrom_append {p : Pending} {a : Text} {c : Char} (ha : ∀ u, Token.stray u ∉ lexFrom p a)
    (hc : isBreak c = true) (b : Text) :
    lexFrom p (a ++ c :: b) = lexFrom p a ++ lexFrom (.ofChar c) b := by
  induction a generalizing p with
  | nil =>
    have hp : ∀ t, p ≠ .literal t := by
      rintro t rfl
      exact ha t List.mem_cons_self
    exact lexFrom_cons_none (Pending.extend?_of_isBreak hc hp) b
  | cons d a ih =>
    cases h : p.extend? d with
    | some q =>
      rw [lexFrom_cons_some h] at ha
      rw [List.cons_append, lexFrom_cons_some h, lexFrom_cons_some h, ih ha]
    | none =>
      rw [lexFrom_cons_none h] at ha
      rw [List.cons_append, lexFrom_cons_none h, lexFrom_cons_none h,
        ih fun u hu => ha u (List.mem_append_right _ hu), List.append_assoc]

/-- A sign is no operand. -/
theorem head?_lexFrom_sign (s t : Text) (i : Item) :
    (lexFrom (.sign s) t).head? ≠ some (.item i) := by
  have hend : ∀ s, ∃ k, (Pending.sign s).tokens = [k] ∧ k ≠ .item i := by
    intro s
    rw [Pending.tokens]
    split <;> exact ⟨_, rfl, by simp⟩
  induction t generalizing s with
  | nil =>
    obtain ⟨k, hk, hne⟩ := hend s
    rw [lexFrom, hk]
    simpa using hne
  | cons c t ih =>
    cases h : (Pending.sign s).extend? c with
    | none =>
      obtain ⟨k, hk, hne⟩ := hend s
      rw [lexFrom_cons_none h, hk]
      simpa using hne
    | some q =>
      rw [lexFrom_cons_some h]
      rw [Pending.extend?] at h
      split at h
      · exact Option.some.inj h ▸ ih _
      · exact absurd h (by simp)

/-- A text whose commas are all in literals is one argument. -/
theorem uncut_of_lexFrom {p : Pending} {t : Text} (hstray : ∀ u, Token.stray u ∉ lexFrom p t)
    (hcomma : Token.comma ∉ lexFrom p t) : Text.uncut p.isLiteral t = true := by
  induction t generalizing p with
  | nil =>
    cases p with
    | literal t => exact absurd List.mem_cons_self (hstray t)
    | _ => rfl
  | cons c t ih =>
    cases h : p.extend? c with
    | some q =>
      rw [lexFrom_cons_some h] at hstray hcomma
      have hrest := ih hstray hcomma
      rcases Pending.extend?_cases h with ⟨hbreak, hquote, hp, hq⟩ | ⟨u, rfl, rfl⟩
        | ⟨u, rfl, rfl, rfl⟩
      · have hne : c ≠ ',' := by
          rintro rfl
          exact absurd hbreak (by decide)
        rw [Pending.isLiteral_eq_false hp]
        rw [Pending.isLiteral_eq_false hq] at hrest
        simp [Text.uncut, hne, hquote, hrest]
      · by_cases hc : c = '\''
        · subst hc
          exact hrest
        · rw [if_neg (by simpa using hc)] at hrest
          have hrest' : Text.uncut true t = true := hrest
          simp [Text.uncut, Pending.isLiteral, hc, hrest']
      · exact hrest
    | none =>
      rw [lexFrom_cons_none h] at hstray hcomma
      have hrest := ih (fun u hu => hstray u (List.mem_append_right _ hu))
        fun hu => hcomma (List.mem_append_right _ hu)
      have hp : p.isLiteral = false := Pending.isLiteral_eq_false fun u hu => by
        subst hu
        exact absurd h (by simp [Pending.extend?])
      rw [hp]
      by_cases hquote : c = '\''
      · subst hquote
        exact hrest
      · have hne : c ≠ ',' := by
          rintro rfl
          refine hcomma (List.mem_append_right _ ?_)
          rw [show Pending.ofChar ',' = .mark ',' from rfl, lexFrom_mark]
          exact List.mem_append_left _ List.mem_cons_self
        rw [Pending.isLiteral_eq_false (Pending.ofChar_ne_literal hquote)] at hrest
        simp [Text.uncut, hne, hquote, hrest]

/-! ## Chains -/

def BinaryOp.tokens (o : BinaryOp) : List Token := o.spelling.map .op

/-- Behind an operand that an operator follows there is no parenthesis. -/
theorem BinaryOp.head?_tokens_append (o : BinaryOp) (ks : List Token) :
    (o.tokens ++ ks).head? ≠ some .opening := by
  cases o <;> simp [tokens, spelling]

/-- Operands with operators between them. -/
structure Chain where
  first : Item
  rest : List (BinaryOp × Item)
deriving DecidableEq, Repr

namespace Chain

/-- Operators and operands behind an operand. -/
def restTokens (ps : List (BinaryOp × Item)) : List Token :=
  ps.flatMap fun p => p.1.tokens ++ [.item p.2]

def tokens (c : Chain) : List Token := .item c.first :: restTokens c.rest

theorem restTokens_cons (p : BinaryOp × Item) (ps : List (BinaryOp × Item)) :
    restTokens (p :: ps) = p.1.tokens ++ .item p.2 :: restTokens ps := by
  simp [restTokens]

/-- The operators of a chain. -/
def ops (c : Chain) : List BinaryOp := c.rest.map Prod.fst

/-- A tree with more operators and operands on the right. -/
def extend (t : Tree) (ps : List (BinaryOp × Item)) : Tree :=
  ps.foldl (fun t p => t.snoc p.1 (.item p.2)) t

/-- A chain as it is read. -/
def tree (c : Chain) : Tree := extend (.item c.first) c.rest

/-- Chains with `||` between them. -/
def join (c : Chain) (ds : List Chain) : Chain :=
  ⟨c.first, c.rest ++ ds.flatMap fun d => (.concat, d.first) :: d.rest⟩

theorem stray_not_mem (c : Chain) (u : Text) : Token.stray u ∉ c.tokens := by
  simp [tokens, restTokens, BinaryOp.tokens]

theorem comma_not_mem (c : Chain) : Token.comma ∉ c.tokens := by
  simp [tokens, restTokens, BinaryOp.tokens]

theorem tokens_join (c : Chain) (ds : List Chain) :
    (c.join ds).tokens = c.tokens ++ ds.flatMap fun d => .op "||" :: d.tokens := by
  rw [tokens, join, restTokens, List.flatMap_append, List.flatMap_assoc, ← List.cons_append]
  rfl

/-- A chain is a tree of its operators and operands, in their order, built by precedence. -/
theorem tree_spec (c : Chain) : c.tree.Ordered ∧
    c.tree.flat = .inr (.item c.first) :: c.rest.flatMap fun p => [.inl p.1, .inr (.item p.2)] := by
  have hextend : ∀ {t : Tree} (ps : List (BinaryOp × Item)), t.Ordered → (extend t ps).Ordered ∧
      (extend t ps).flat = t.flat ++ ps.flatMap fun p => [.inl p.1, .inr (.item p.2)] := by
    intro t ps ht
    induction ps generalizing t with
    | nil => exact ⟨ht, (List.append_nil _).symm⟩
    | cons p ps ih =>
      obtain ⟨hordered, hflat⟩ := ih (Tree.ordered_snoc ht (x := .item p.2) trivial rfl p.1)
      refine ⟨hordered, hflat.trans ?_⟩
      rw [Tree.flat_snoc rfl]
      simp
  exact hextend c.rest trivial

/-! ## Operands of chains -/

theorem rank_extend (t : Tree) (ps : List (BinaryOp × Item)) :
    (extend t ps).rank ≤ t.rank ∧ ∀ p ∈ ps, (extend t ps).rank ≤ p.1.level := by
  induction ps generalizing t with
  | nil => exact ⟨Nat.le_refl _, by simp⟩
  | cons p ps ih =>
    obtain ⟨hle, hps⟩ := ih (t.snoc p.1 (.item p.2))
    rw [Tree.rank_snoc, Nat.le_min] at hle
    exact ⟨hle.1, List.forall_mem_cons.2 ⟨hle.2, hps⟩⟩

/-- Operators that are all as tight as `||` are taken from left to right. -/
theorem extend_cons_of_level {t : Tree} (ht : 7 ≤ t.rank) {p : BinaryOp × Item} (hp : p.1.level = 7)
    (ps : List (BinaryOp × Item)) :
    extend t (p :: ps) = extend (.binary p.1 t (.item p.2)) ps ∧
      7 ≤ (Tree.binary p.1 t (.item p.2)).rank :=
  ⟨congrArg (extend · ps) (Tree.snoc_of_level_le (hp ▸ ht) _), Nat.le_of_eq hp.symm⟩

theorem le_rank_extend {t : Tree} (ht : 7 ≤ t.rank) {ps : List (BinaryOp × Item)}
    (hps : ∀ p ∈ ps, p.1.level = 7) : 7 ≤ (extend t ps).rank := by
  induction ps generalizing t with
  | nil => exact ht
  | cons p ps ih =>
    obtain ⟨hp, hps⟩ := List.forall_mem_cons.1 hps
    obtain ⟨hextend, hrank⟩ := extend_cons_of_level ht hp ps
    rw [hextend]
    exact ih hrank hps

theorem operands_extend_of_concat {t : Tree} (ht : 7 ≤ t.rank) {ps : List (BinaryOp × Item)}
    (hps : ∀ p ∈ ps, p.1 = .concat) :
    (extend t ps).operands = t.operands ++ ps.map fun p => .item p.2 := by
  induction ps generalizing t with
  | nil => exact (List.append_nil _).symm
  | cons p ps ih =>
    obtain ⟨hp, hps⟩ := List.forall_mem_cons.1 hps
    obtain ⟨hextend, hrank⟩ := extend_cons_of_level ht (p := p) (by rw [hp]; rfl) ps
    rw [hextend, ih hrank hps, hp, Tree.operands]
    simp [Tree.operands]

/-- How many operands there are behind operators as tight as `||`, `n` in front of them. -/
def tally (n : Nat) (ps : List (BinaryOp × Item)) : Nat :=
  ps.foldl (fun n p => if p.1 = .concat then n + 1 else 1) n

theorem length_operands_extend {t : Tree} (ht : 7 ≤ t.rank) {ps : List (BinaryOp × Item)}
    (hps : ∀ p ∈ ps, p.1.level = 7) :
    (extend t ps).operands.length = tally t.operands.length ps := by
  induction ps generalizing t with
  | nil => rfl
  | cons p ps ih =>
    obtain ⟨hp, hps⟩ := List.forall_mem_cons.1 hps
    obtain ⟨hextend, hrank⟩ := extend_cons_of_level ht hp ps
    have hlength : (Tree.binary p.1 t (.item p.2)).operands.length
        = if p.1 = .concat then t.operands.length + 1 else 1 := by
      split
      · next hc =>
        rw [hc, Tree.operands]
        simp [Tree.operands]
      · next hc =>
        rw [Tree.operands]
        · rfl
        · intro l r heq
          exact hc (Tree.binary.inj heq).1
    rw [hextend, ih hrank hps, hlength]
    rfl

theorem tally_add_le (m n : Nat) (ps : List (BinaryOp × Item)) : tally (m + n) ps ≤ m + tally n ps ∧
    (0 < m → (∃ p ∈ ps, p.1 ≠ .concat) → tally (m + n) ps < m + tally n ps) := by
  induction ps generalizing n with
  | nil => exact ⟨Nat.le_refl _, by simp⟩
  | cons p ps ih =>
    by_cases hp : p.1 = .concat
    · have hcons : ∀ k, tally k (p :: ps) = tally (k + 1) ps := fun k => by simp [tally, hp]
      rw [hcons, hcons, Nat.add_assoc]
      exact ⟨(ih (n + 1)).1, fun hm hex => (ih (n + 1)).2 hm (by simpa [hp] using hex)⟩
    · have hcons : ∀ k, tally k (p :: ps) = tally 1 ps := fun k => by simp [tally, hp]
      rw [hcons, hcons]
      exact ⟨Nat.le_add_left _ _, fun hm _ => Nat.lt_add_of_pos_left hm⟩

theorem tally_pos {n : Nat} (hn : 0 < n) (ps : List (BinaryOp × Item)) : 0 < tally n ps := by
  induction ps generalizing n with
  | nil => exact hn
  | cons p ps ih =>
    rw [tally, List.foldl_cons]
    split
    · exact ih (Nat.succ_pos n)
    · exact ih Nat.one_pos

/-- With chains behind `||` there are no more operands than there are in all of them, and fewer if
one of the chains holds another operator. -/
theorem tally_chains_le {n : Nat} (hn : 0 < n) (ds : List Chain) :
    tally n (ds.flatMap fun d => (.concat, d.first) :: d.rest)
        ≤ n + (ds.map fun d => tally 1 d.rest).sum ∧
      ((∃ d ∈ ds, ∃ p ∈ d.rest, p.1 ≠ .concat) →
        tally n (ds.flatMap fun d => (.concat, d.first) :: d.rest)
          < n + (ds.map fun d => tally 1 d.rest).sum) := by
  induction ds generalizing n with
  | nil => exact ⟨Nat.le_refl _, by simp⟩
  | cons d ds ih =>
    have hcons : tally n ((d :: ds).flatMap fun d => (.concat, d.first) :: d.rest)
        = tally (tally (n + 1) d.rest) (ds.flatMap fun d => (.concat, d.first) :: d.rest) := by
      simp [tally]
    obtain ⟨hle, hlt⟩ := ih (tally_pos (show 0 < n + 1 from Nat.succ_pos n) d.rest)
    obtain ⟨hfirst, hfirst'⟩ := tally_add_le n 1 d.rest
    rw [hcons, List.map_cons, List.sum_cons]
    refine ⟨by omega, ?_⟩
    rintro ⟨x, hx, hp⟩
    rcases List.mem_cons.1 hx with rfl | hx
    · have hless := hfirst' hn hp
      omega
    · have hless := hlt ⟨x, hx, hp⟩
      omega

theorem length_operands {c : Chain} (h : ∀ p ∈ c.rest, p.1.level = 7) :
    c.tree.operands.length = tally 1 c.rest :=
  length_operands_extend (t := .item c.first) (Nat.le_succ 7) h

theorem tree_join (c : Chain) (ds : List Chain) :
    (c.join ds).tree = extend c.tree (ds.flatMap fun d => (.concat, d.first) :: d.rest) :=
  List.foldl_append

/-- **Chains between `||`.** What is read is the concatenation of the operands of the chains exactly
if the first chain holds no looser operator than `||`, and the others no other one. -/
theorem operands_join_iff (c : Chain) {ds : List Chain} (hne : ds ≠ []) :
    (c.join ds).tree.operands = (c :: ds).flatMap (fun d => d.tree.operands) ↔
      (∀ o ∈ c.ops, o.level = 7) ∧ ∀ d ∈ ds, ∀ o ∈ d.ops, o = .concat := by
  simp only [ops, List.forall_mem_map]
  constructor
  · intro heq
    have hlong : 1 < (c.join ds).tree.operands.length := by
      obtain ⟨d, ds, rfl⟩ := List.exists_cons_of_ne_nil hne
      have hc := List.length_pos_of_ne_nil c.tree.operands_ne_nil
      have hd := List.length_pos_of_ne_nil d.tree.operands_ne_nil
      rw [heq, List.flatMap_cons, List.flatMap_cons, List.length_append, List.length_append]
      omega
    -- a looser operator would be the outermost one
    have hlevels : ∀ p ∈ (c.join ds).rest, p.1.level = 7 := by
      intro p hp
      by_contra hlevel
      have hrank : (c.join ds).tree.rank ≤ p.1.level := (rank_extend _ _).2 p hp
      have hle := p.1.level_le
      rw [Tree.operands_of_rank_ne (by omega)] at hlong
      exact absurd hlong (by simp)
    obtain ⟨hfirst, hothers⟩ := List.forall_mem_append.1 hlevels
    refine ⟨hfirst, fun d hd p hp => ?_⟩
    have hrest : ∀ d ∈ ds, ∀ p ∈ d.rest, p.1.level = 7 := fun d hd p hp =>
      hothers p (List.mem_flatMap.2 ⟨d, hd, List.mem_cons_of_mem _ hp⟩)
    by_contra hconcat
    have hless := (tally_chains_le (tally_pos Nat.one_pos c.rest) ds).2 ⟨d, hd, p, hp, hconcat⟩
    have hlength := congrArg List.length heq
    rw [length_operands hlevels, List.length_flatMap, List.map_cons, List.sum_cons,
      length_operands hfirst,
      List.map_congr_left fun d hd => length_operands (hrest d hd)] at hlength
    have htally : tally 1 (c.join ds).rest
        = tally (tally 1 c.rest) (ds.flatMap fun d => (.concat, d.first) :: d.rest) :=
      List.foldl_append
    omega
  · rintro ⟨hfirst, hothers⟩
    have hrank : 7 ≤ c.tree.rank := le_rank_extend (t := .item c.first) (Nat.le_succ 7) hfirst
    have hconcat : ∀ p ∈ ds.flatMap (fun d => (BinaryOp.concat, d.first) :: d.rest),
        p.1 = .concat := by
      intro p hp
      obtain ⟨d, hd, hp⟩ := List.mem_flatMap.1 hp
      rcases List.mem_cons.1 hp with rfl | hp
      · rfl
      · exact hothers d hd p hp
    rw [tree_join, operands_extend_of_concat hrank hconcat, List.flatMap_cons, List.map_flatMap]
    refine congrArg (c.tree.operands ++ ·) (List.flatMap_congr fun d hd => ?_)
    exact (operands_extend_of_concat (t := .item d.first) (Nat.le_succ 7) (hothers d hd)).symm

/-! ## Chains as they are read -/

variable {name : Option Text} {args : List Tree} {fs : List Frame} {ks : List Token}

/-- An operand is read as what it is, unless a parenthesis follows. -/
theorem parseFrom_item {r s : PartialTree} {i : Item} (hr : r.operand? (.item i) = some s)
    (hks : ks.head? ≠ some .opening) :
    parseFrom ⟨name, args, r⟩ fs (.item i :: ks) = parseFrom ⟨name, args, s⟩ fs ks := by
  have hput : Frame.put? ⟨name, args, r⟩ (r.operand? (.item i)) = some ⟨name, args, s⟩ := by
    rw [hr]
    rfl
  rw [parseFrom, hput]
  rintro w ks rfl
  exact absurd rfl hks

theorem parseFrom_op (t : Tree) (o : BinaryOp) :
    parseFrom ⟨name, args, .done t⟩ fs (o.tokens ++ ks)
      = parseFrom ⟨name, args, .missing (some (t, o.spelling)) 0⟩ fs ks := by
  cases o <;> rfl

theorem head?_restTokens_append (ps : List (BinaryOp × Item)) (hks : ks.head? ≠ some .opening) :
    (restTokens ps ++ ks).head? ≠ some .opening := by
  cases ps with
  | nil => exact hks
  | cons p ps =>
    rw [restTokens_cons, List.append_assoc]
    exact p.1.head?_tokens_append _

theorem parseFrom_extend (t : Tree) (ps : List (BinaryOp × Item)) (hks : ks.head? ≠ some .opening) :
    parseFrom ⟨name, args, .done t⟩ fs (restTokens ps ++ ks)
      = parseFrom ⟨name, args, .done (extend t ps)⟩ fs ks := by
  induction ps generalizing t with
  | nil => rfl
  | cons p ps ih =>
    have hread : (PartialTree.missing (some (t, p.1.spelling)) 0).operand? (.item p.2)
        = some (.done (t.snoc p.1 (.item p.2))) := by
      rw [PartialTree.operand?, BinaryOp.ofSpelling?_spelling]
      rfl
    rw [restTokens_cons, List.append_assoc, parseFrom_op]
    exact (parseFrom_item hread (head?_restTokens_append ps hks)).trans (ih _)

/-- The tokens of a chain are read as its tree, behind as many minus signs. -/
theorem parseFrom_tokens (c : Chain) (n : Nat) (hks : ks.head? ≠ some .opening) :
    parseFrom ⟨name, args, .missing none n⟩ fs (c.tokens ++ ks)
      = parseFrom
        ⟨name, args, .done (extend (Nat.repeat .negation n (.item c.first)) c.rest)⟩ fs ks := by
  exact (parseFrom_item rfl (head?_restTokens_append c.rest hks)).trans (parseFrom_extend _ _ hks)

/-- The text is a chain of operators and operands. -/
def Spells (c : Chain) (t : Text) : Prop := lex t = c.tokens

instance (c : Chain) (t : Text) : Decidable (c.Spells t) :=
  inferInstanceAs (Decidable (lex t = c.tokens))

namespace Spells

variable {c : Chain} {t : Text}

theorem stray_not_mem (h : c.Spells t) (u : Text) : Token.stray u ∉ lex t := by
  rw [h]
  exact c.stray_not_mem u

theorem lex_append (h : c.Spells t) {x : Char} (hx : isBreak x = true) (r : Text) :
    lex (t ++ x :: r) = c.tokens ++ lexFrom (.ofChar x) r := by
  rw [lex, lexFrom_append h.stray_not_mem hx, ← lex, h]

theorem lex_append_mark (h : c.Spells t) {x : Char} (hx : x ∈ ['(', ')', ',']) (r : Text) :
    lex (t ++ x :: r) = c.tokens ++ ((Pending.mark x).tokens ++ lex r) := by
  have hmark : isBreak x = true ∧ Pending.ofChar x = .mark x := by
    revert x
    decide
  rw [h.lex_append hmark.1, hmark.2, lexFrom_mark]

theorem uncut (h : c.Spells t) : Text.uncut false t = true :=
  uncut_of_lexFrom (p := .nothing) h.stray_not_mem fun hc =>
    c.comma_not_mem (h ▸ hc : Token.comma ∈ c.tokens)

theorem parse (h : c.Spells t) : parse t = some c.tree := by
  rw [SqlScribe.parse, h, ← List.append_nil c.tokens]
  exact parseFrom_tokens c 0 (by simp)

/-- Chains are read with `||` between them. -/
theorem join (h : c.Spells t) {ds : List Chain} {us : List Text} (hds : List.Forall₂ Spells ds us) :
    (c.join ds).Spells (Text.join " || " (t :: us)) := by
  rw [Spells, tokens_join]
  induction hds generalizing c t with
  | nil => exact h.trans (List.append_nil _).symm
  | @cons d u ds us hd hds ih =>
    have hbars : ∀ r : Text, lexFrom (.ofChar ' ') ('|' :: '|' :: ' ' :: r) = .op "||" :: lex r :=
      fun _ => rfl
    have hcons : Text.join " || " (t :: u :: us)
        = t ++ ' ' :: '|' :: '|' :: ' ' :: Text.join " || " (u :: us) := by
      rw [Text.join_cons _ _ (List.cons_ne_nil u us), List.append_assoc]
      rfl
    rw [hcons, h.lex_append (by decide), hbars, ih hd, List.flatMap_cons]
    simp

/-- In parentheses a chain is one operand. -/
theorem parse_group (h : c.Spells t) :
    SqlScribe.parse ('(' :: (t ++ [')'])) = some (.group c.tree) := by
  have hlex : lex ('(' :: (t ++ [')'])) = .opening :: (c.tokens ++ [.closing]) := by
    rw [lex_cons, show Pending.ofChar '(' = .mark '(' from rfl, lexFrom_mark,
      h.lex_append_mark (by simp)]
    rfl
  rw [SqlScribe.parse, hlex]
  exact parseFrom_tokens c 0 (by simp)

/-- A minus in front of a chain is an operator of its own. -/
theorem lex_minus (h : c.Spells t) (r : Text) :
    lex ('-' :: (t ++ ')' :: r)) = .op "-" :: (c.tokens ++ .closing :: lex r) := by
  have hrest := h.lex_append_mark (x := ')') (by simp) r
  cases t with
  | nil => exact absurd h (by simp [Spells, lex, lexFrom, Pending.tokens, tokens])
  | cons x t =>
    have hend : (Pending.sign ['-']).extend? x = none := by
      cases hx : (Pending.sign ['-']).extend? x with
      | none => rfl
      | some q =>
        -- a sign that makes a longer one begins no operand
        have hsign : x = '-' ∨ x = '>' := by
          rw [Pending.extend?] at hx
          split at hx
          · next hc => simpa [signs] using hc
          · exact absurd hx (by simp)
        have hchar : Pending.ofChar x = .sign [x] := by
          rcases hsign with rfl | rfl <;> rfl
        have hfirst : (lex (x :: t)).head? = some (.item c.first) := by rw [h]; rfl
        rw [lex_cons, hchar] at hfirst
        exact absurd hfirst (head?_lexFrom_sign [x] t c.first)
    rw [List.cons_append, lex_cons, show Pending.ofChar '-' = .sign ['-'] from rfl,
      lexFrom_cons_none hend, ← lex_cons, ← List.cons_append, hrest]
    rfl

/-- A function of a chain and of one with a minus in front of it. The minus takes the first operand
of the chain. -/
theorem parse_negated {n : Text} (hname : lex n = [.item (.word n)]) (h : c.Spells t)
    {d : Chain} {u : Text} (hd : d.Spells u) :
    SqlScribe.parse (n ++ '(' :: (t ++ ',' :: ' ' :: '-' :: (u ++ [')'])))
      = some (.call n [c.tree, extend (.negation (.item d.first)) d.rest]) := by
  have hstray : ∀ v, Token.stray v ∉ lexFrom .nothing n := fun v hv => by
    have hmem : Token.stray v ∈ [Token.item (.word n)] := hname ▸ hv
    exact absurd hmem (by simp)
  have hopen : Pending.ofChar '(' = .mark '(' := rfl
  have hspace : ∀ r, lex (' ' :: r) = lex r := fun _ => rfl
  have hlex : lex (n ++ '(' :: (t ++ ',' :: ' ' :: '-' :: (u ++ [')'])))
      = .item (.word n) :: .opening :: (c.tokens
        ++ .comma :: .op "-" :: (d.tokens ++ [.closing])) := by
    rw [lex, lexFrom_append hstray (by decide), hopen, lexFrom_mark, ← lex, hname,
      h.lex_append_mark (by simp), hspace, hd.lex_minus]
    rfl
  rw [SqlScribe.parse, hlex]
  have hfirst : parseFrom (.opened (some n)) [.opened none]
        (c.tokens ++ .comma :: .op "-" :: (d.tokens ++ [.closing]))
      = parseFrom ⟨some n, [], .done c.tree⟩ [.opened none]
        (.comma :: .op "-" :: (d.tokens ++ [.closing])) := parseFrom_tokens c 0 (by simp)
  exact hfirst.trans (parseFrom_tokens d 1 (by simp))

end Spells

end Chain

end SqlScribe
