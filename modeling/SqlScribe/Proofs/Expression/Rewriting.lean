import SqlScribe.Dialect.Pipeline
import SqlScribe.Proofs.Expression.Basic
import SqlScribe.Proofs.Pattern.Hits

/-!
# Rewriting the calls of an expression

What a rule for calls does to the text of an expression, as a map of trees. The rule looks at a
text from left to right and knows nothing of trees; that it is one comes from where its matches
can begin. Main statements:

* `Pattern.replaceFrom_quiet`: replacing passes over a text in which no match begins;
* `CallRule.Rewrites.replaceFrom_write`: a rule goes through a written expression call by call;
* `CallRule.Rewrites.applyTo_write`: what is written behind the rule is the tree it makes.
-/

namespace SqlScribe

namespace Pattern

/-! ## Replacing piece by piece -/

/-- The text behind `b` with every match replaced. -/
def replaceFrom (p : Pattern) (f : Match → Text) (b : Option Char) (t : Text) : Text :=
  (piecesFrom p b 0 t).flatMap (Piece.put f)

variable {p : Pattern} {f : Match → Text} {b : Option Char} {u r t : Text}

theorem replaceFrom_nil (p : Pattern) (f : Match → Text) (b : Option Char) :
    replaceFrom p f b [] = [] := rfl

theorem replaceFrom_cons {c : Char} (h : p.matchAt? b (c :: t) = none) :
    replaceFrom p f b (c :: t) = c :: replaceFrom p f (some c) t := by
  rw [replaceFrom, piecesFrom_of_none h]
  rfl

/-- A match is replaced, and the search goes on behind it. -/
theorem replaceFrom_hit {m : Match} (h : p.matchAt? b (u ++ r) = some m) (hu : m.text = u) :
    replaceFrom p f b (u ++ r) = f m ++ replaceFrom p f (u.getLast?.or b) r := by
  rw [replaceFrom, piecesFrom_hit h hu, List.flatMap_cons]
  rfl

/-- No match begins in `u` when `r` follows. -/
def Quiet (p : Pattern) (b : Option Char) (u r : Text) : Prop :=
  ∀ v w, u = v ++ w → w ≠ [] → p.matchAt? (v.getLast?.or b) (w ++ r) = none

theorem Quiet.cons {c : Char} (h : p.matchAt? b (c :: (u ++ r)) = none)
    (hu : Quiet p (some c) u r) :
    Quiet p b (c :: u) r := by
  intro v w hvw hw
  cases v with
  | nil =>
    obtain rfl : c :: u = w := hvw
    exact h
  | cons d v =>
    obtain ⟨rfl, rfl⟩ := List.cons.inj hvw
    rw [Text.getLast?_cons_or]
    exact hu v w rfl hw

theorem Quiet.nil : Quiet p b [] r :=
  fun _ _ h hw => absurd (List.append_eq_nil_iff.1 h.symm).2 hw

theorem replaceFrom_quiet (h : Quiet p b u r) :
    replaceFrom p f b (u ++ r) = u ++ replaceFrom p f (u.getLast?.or b) r := by
  induction u generalizing b with
  | nil => rfl
  | cons c u ih =>
    have hnow : p.matchAt? b (c :: (u ++ r)) = none := h [] (c :: u) rfl (List.cons_ne_nil c u)
    have hrest : Quiet p (some c) u r := fun v w hu hw => by
      rw [← Text.getLast?_cons_or]
      exact h (c :: v) w (by rw [hu]; rfl) hw
    rw [List.cons_append, replaceFrom_cons hnow, ih hrest, Text.getLast?_cons_or, List.cons_append]

end Pattern

/-! ## Rules for calls -/

/-- A function of a dialect: its name in lower case, which arguments it takes, and the characters
of which an argument has to be for the rule of the function to find the call, if that matters. -/
structure SqlFunction where
  name : Text
  takes : List (Option Text) → Bool
  reach : Option CharClass

/-- Whether arguments are such that the rule of the function finds the call. -/
def SqlFunction.reaches (f : SqlFunction) (args : List (Option Text)) : Bool :=
  match f.reach with
  | none => true
  | some k => args.all fun arg => arg.any fun t => t.all k.has

/-- What becomes of a call. -/
inductive Outcome where
  /-- The arguments stay behind another name. -/
  | rename (name : Text)
  | replace (e : Expr)

/-- A rule with the functions whose calls it is for, and what it makes of a call from the name
and the texts of the arguments. -/
structure CallRule where
  rule : TextRule
  functions : List SqlFunction
  outcome : Text → List Text → Outcome

namespace CallRule

/-- Whether the rule finds a call. -/
def reaches (s : CallRule) (name : Text) (args : List (Option Text)) : Bool :=
  s.functions.any fun f => f.name == name.asciiLower && f.reaches args

mutual

/-- The expression with the calls replaced that the rule finds. -/
def turn (s : CallRule) : Expr → Expr
  | .atom t => .atom t
  | .node name parts =>
      if s.reaches name (parts.map Expr.text?) then
        match s.outcome name (parts.map Expr.write) with
        | .rename new => .node new (turnAll s parts)
        | .replace e => e
      else .node name (turnAll s parts)

/-- The expressions with the calls replaced that the rule finds. -/
def turnAll (s : CallRule) : List Expr → List Expr
  | [] => []
  | e :: es => turn s e :: turnAll s es

end

@[simp] theorem turnAll_eq (s : CallRule) (es : List Expr) : s.turnAll es = es.map s.turn := by
  induction es with
  | nil => rfl
  | cons e es ih => rw [turnAll, ih, List.map_cons]

variable {s : CallRule} {g : Text} {parts : List Expr}

theorem turn_missed (h : s.reaches g (parts.map Expr.text?) = false) :
    s.turn (.node g parts) = .node g (parts.map s.turn) := by
  rw [turn, if_neg (by simp [h]), turnAll_eq]

theorem turn_renamed {new : Text} (h : s.reaches g (parts.map Expr.text?) = true)
    (hout : s.outcome g (parts.map Expr.write) = .rename new) :
    s.turn (.node g parts) = .node new (parts.map s.turn) := by
  rw [turn, if_pos h, hout, turnAll_eq]

theorem turn_replaced {e : Expr} (h : s.reaches g (parts.map Expr.text?) = true)
    (hout : s.outcome g (parts.map Expr.write) = .replace e) : s.turn (.node g parts) = e := by
  rw [turn, if_pos h, hout]

end CallRule

/-! ## Where matches begin -/

/-- What may follow an expression: a text without calls, or a sign that parts it from what comes
next. -/
def Shut (r : Text) : Prop :=
  '(' ∉ r ∨ (∃ s, r = ',' :: s) ∨ (∃ s, r = ')' :: s) ∨ ∃ s, r = ' ' :: '|' :: s

/-- A pattern whose matches begin at the name in front of a parenthesis, or at blanks in front of
it; only names are made of label characters. -/
structure Calling (p : Pattern) : Prop where
  reads : ∀ {m : Match} {b : Option Char} {t : Text}, m.IsOf p b t →
    ∃ u r, t = u ++ '(' :: r ∧ u ≠ [] ∧ ∀ c ∈ u, isWordChar c = true ∨ isBlank c = true
  inside : ∀ {b c : Char} {g : Text} (t : Text), isWordChar b = true →
    (∀ x ∈ c :: g, isLabelChar x = true) → p.matchAt? (some b) (c :: (g ++ '(' :: t)) = none
  spaced : ∀ (b : Option Char) {g : Text} (t : Text), (∀ c ∈ g, isLabelChar c = true) →
    p.matchAt? b (' ' :: (g ++ '(' :: t)) = none

/-- A parenthesis that stands behind `w` stands behind all of `w`. -/
theorem exists_of_append_paren {w r u s : Text} (hw : '(' ∉ w) (h : w ++ r = u ++ '(' :: s) :
    ∃ v, u = w ++ v ∧ r = v ++ '(' :: s := by
  rcases List.append_eq_append_iff.1 h with ⟨v, rfl, hr⟩ | ⟨v, rfl, hs⟩
  · exact ⟨v, rfl, hr⟩
  · cases v with
    | nil => exact ⟨[], by simp, by simpa using hs.symm⟩
    | cons c v =>
      obtain ⟨rfl, -⟩ := List.cons.inj hs
      exact absurd (List.mem_append_right u List.mem_cons_self) hw

namespace Calling

variable {p : Pattern} {b : Option Char} {t w r : Text}

theorem matchAt?_of_sign (h : Calling p) {c : Char} (hword : isWordChar c = false)
    (hblank : isBlank c = false) : p.matchAt? b (c :: t) = none := by
  by_contra hne
  obtain ⟨m, hm⟩ := Option.ne_none_iff_exists'.1 hne
  obtain ⟨u, s, ht, hu, hall⟩ := h.reads (Pattern.isOf_of_matchAt? hm)
  obtain ⟨d, u, rfl⟩ := List.exists_cons_of_ne_nil hu
  obtain ⟨rfl, -⟩ := List.cons.inj ht
  rcases hall c List.mem_cons_self with hc | hc
  · exact absurd hc (by simp [hword])
  · exact absurd hc (by simp [hblank])

/-- Before the next parenthesis comes a sign that is in no name. -/
theorem matchAt?_of_shut (h : Calling p) (hw : '(' ∉ w) (hr : Shut r) :
    p.matchAt? b (w ++ r) = none := by
  by_contra hne
  obtain ⟨m, hm⟩ := Option.ne_none_iff_exists'.1 hne
  obtain ⟨u, s, ht, -, hall⟩ := h.reads (Pattern.isOf_of_matchAt? hm)
  obtain ⟨v, rfl, hv⟩ := exists_of_append_paren hw ht
  have hsign : ∀ {c : Char} {x : Text}, (isWordChar c || isBlank c) = false → c ≠ '(' →
      c :: x ≠ v ++ '(' :: s := by
    intro c x hc hparen heq
    cases v with
    | nil => exact hparen (List.cons.inj heq).1
    | cons d v =>
      obtain ⟨rfl, -⟩ := List.cons.inj heq
      have hd := hall c (List.mem_append_right w List.mem_cons_self)
      rw [← Bool.or_eq_true, hc] at hd
      exact absurd hd (by simp)
  rcases hr with hnone | ⟨x, rfl⟩ | ⟨x, rfl⟩ | ⟨x, rfl⟩
  · exact absurd (hv ▸ List.mem_append_right v List.mem_cons_self) hnone
  · exact hsign (by decide) (by decide) hv
  · exact hsign (by decide) (by decide) hv
  · cases v with
    | nil => exact absurd (List.cons.inj hv).1 (by decide)
    | cons d v =>
      have hbar : '|' :: x = v ++ '(' :: s := (List.cons.inj hv).2
      cases v with
      | nil => exact absurd (List.cons.inj hbar).1 (by decide)
      | cons e v =>
        obtain ⟨rfl, -⟩ := List.cons.inj hbar
        exact absurd (hall '|' (by simp)) (by decide)

end Calling

/-! ## Going through an expression -/

namespace Expr

theorem Plain.paren_not_mem {t : Text} (h : Plain t) : '(' ∉ t :=
  fun hc => h.marks _ hc (by simp)

end Expr

theorem Expr.write_node_append (g : Text) (parts : List Expr) (r : Text) :
    (Expr.node g parts).write ++ r = g ++ ['('] ++
      (Text.join (Expr.separator g) (parts.map Expr.write) ++ ')' :: r) := by
  rw [Expr.write_node]
  simp

theorem Expr.getLast?_write_node (g : Text) (parts : List Expr) (b : Option Char) :
    (Expr.node g parts).write.getLast?.or b = some ')' := by
  rw [Expr.write_node, ← List.cons_append, ← List.append_assoc, List.getLast?_concat]
  rfl

theorem shut_paren (t : Text) : Shut (')' :: t) := Or.inr (Or.inr (Or.inl ⟨t, rfl⟩))

theorem shut_separator (name t : Text) : Shut (Expr.separator name ++ t) := by
  rw [Expr.separator]
  split
  · exact Or.inr (Or.inr (Or.inr ⟨'|' :: ' ' :: t, rfl⟩))
  · exact Or.inr (Or.inl ⟨' ' :: t, rfl⟩)

theorem getLast?_separator (name : Text) (b : Option Char) :
    (Expr.separator name).getLast?.or b = some ' ' := by
  rw [Expr.separator]
  split <;> rfl

/-- Parts are written with the first of them in front of a sign. -/
theorem exists_shut_of_join (name : Text) (e : Expr) (es : List Expr) (r : Text) :
    ∃ t, Shut t ∧ Text.join (Expr.separator name) ((e :: es).map Expr.write) ++ ')' :: r =
      e.write ++ t := by
  cases es with
  | nil => exact ⟨')' :: r, shut_paren r, rfl⟩
  | cons d ds =>
    refine ⟨_, shut_separator name (Text.join (Expr.separator name) ((d :: ds).map Expr.write) ++
      ')' :: r), ?_⟩
    rw [List.map_cons, Text.join_cons _ _ (by simp)]
    simp only [List.append_assoc]

namespace Calling

open SqlScribe.Expr

variable {p : Pattern} {f : Match → Text} {b : Option Char} {r : Text}

/-- Nothing begins at the space in front of an expression. -/
theorem matchAt?_space (h : Calling p) {e : Expr} (he : Formed e) (hr : Shut r) :
    p.matchAt? b (' ' :: (e.write ++ r)) = none := by
  cases he with
  | @atom t ht =>
    have hparen : '(' ∉ ' ' :: t := by
      rw [List.mem_cons, not_or]
      exact ⟨by decide, ht.paren_not_mem⟩
    exact h.matchAt?_of_shut hparen hr
  | @node g parts hg _ =>
    rw [write_node, List.append_assoc, List.cons_append]
    exact h.spaced b _ hg

/-- Nothing begins in a separator in front of an expression. -/
theorem quiet_separator (h : Calling p) (name : Text) {e : Expr} (he : Formed e) (hr : Shut r) :
    Pattern.Quiet p b (separator name) (e.write ++ r) := by
  rw [separator]
  split
  · refine .cons ?_ (.cons ?_ (.cons ?_ (.cons ?_ .nil)))
    · exact h.matchAt?_of_shut (w := []) List.not_mem_nil
        (Or.inr (Or.inr (Or.inr ⟨'|' :: ' ' :: (e.write ++ r), rfl⟩)))
    · exact h.matchAt?_of_sign (by decide) (by decide)
    · exact h.matchAt?_of_sign (by decide) (by decide)
    · exact h.matchAt?_space he hr
  · refine .cons ?_ (.cons ?_ .nil)
    · exact h.matchAt?_of_sign (by decide) (by decide)
    · exact h.matchAt?_space he hr

/-- Nothing begins within a plain text. -/
theorem quiet_atom (h : Calling p) {t : Text} (ht : '(' ∉ t) (hr : Shut r) :
    Pattern.Quiet p b t r := by
  rintro v w rfl -
  exact h.matchAt?_of_shut (fun hc => ht (List.mem_append_right v hc)) hr

/-- Nothing begins within a name, behind its first character, and at the parenthesis behind. -/
theorem quiet_inside (h : Calling p) {c : Char} (hc : isLabelChar c = true) {g : Text}
    (hg : ∀ c ∈ g, isLabelChar c = true) : Pattern.Quiet p (some c) (g ++ ['(']) r := by
  induction g generalizing c with
  | nil => exact .cons (h.matchAt?_of_sign (by decide) (by decide)) .nil
  | cons d g ih =>
    have hd := hg d List.mem_cons_self
    refine .cons ?_ (ih hd fun x hx => hg x (List.mem_cons_of_mem d hx))
    have happ : g ++ ['('] ++ r = g ++ '(' :: r := by simp
    have hnone := h.inside r (isWordChar_of_isLabelChar hc) hg
    rw [← happ] at hnone
    exact hnone

theorem quiet_name (h : Calling p) {g : Text} (hg : ∀ c ∈ g, isLabelChar c = true)
    (hnone : g ≠ [] → p.matchAt? b (g ++ '(' :: r) = none) :
    Pattern.Quiet p b (g ++ ['(']) r := by
  cases g with
  | nil => exact .cons (h.matchAt?_of_sign (by decide) (by decide)) .nil
  | cons c g =>
    refine .cons ?_ (h.quiet_inside (hg c List.mem_cons_self)
      fun x hx => hg x (List.mem_cons_of_mem c hx))
    have happ : g ++ ['('] ++ r = g ++ '(' :: r := by simp
    have hnow := hnone (List.cons_ne_nil c g)
    rw [List.cons_append, ← happ] at hnow
    exact hnow

end Calling

/-- What a rule for calls does where a call begins: it finds the calls that it reaches, and puts
for them what is said. -/
structure CallRule.Rewrites (s : CallRule) (P : Text → List (Option Text) → Prop) : Prop where
  calling : Calling s.rule.pattern
  misses : ∀ {g : Text} {parts : List Expr} {b : Option Char} {r : Text},
    (Expr.node g parts).Formed → P g (parts.map Expr.text?) → b.any isWordChar = false → g ≠ [] →
    s.reaches g (parts.map Expr.text?) = false →
    s.rule.pattern.matchAt? b ((Expr.node g parts).write ++ r) = none
  renames : ∀ {g new : Text} {parts : List Expr} {b : Option Char} {r : Text},
    (Expr.node g parts).Formed → P g (parts.map Expr.text?) → b.any isWordChar = false →
    s.reaches g (parts.map Expr.text?) = true →
    s.outcome g (parts.map Expr.write) = .rename new → g ≠ [] ∧ new ≠ [] ∧
      ∃ m, s.rule.pattern.matchAt? b ((Expr.node g parts).write ++ r) = some m ∧
        m.text = g ++ ['('] ∧ s.rule.replacement m = new ++ ['(']
  replaces : ∀ {g : Text} {e : Expr} {parts : List Expr} {b : Option Char} {r : Text},
    (Expr.node g parts).Formed → P g (parts.map Expr.text?) → b.any isWordChar = false →
    s.reaches g (parts.map Expr.text?) = true →
    s.outcome g (parts.map Expr.write) = .replace e →
      ∃ m, s.rule.pattern.matchAt? b ((Expr.node g parts).write ++ r) = some m ∧
        m.text = (Expr.node g parts).write ∧ s.rule.replacement m = e.write

namespace CallRule.Rewrites

open SqlScribe.Expr Pattern

variable {s : CallRule} {P : Text → List (Option Text) → Prop}

/-- The rule goes through the parts of a node one by one, if it goes through each of them. -/
theorem replaceFrom_parts (h : s.Rewrites P) (name : Text) {es : List Expr}
    (hforms : ∀ e ∈ es, Formed e)
    (ih : ∀ e ∈ es, ∀ (b : Option Char) (r : Text), b.any isWordChar = false → Shut r →
      replaceFrom s.rule.pattern s.rule.replacement b (e.write ++ r) = (s.turn e).write ++
        replaceFrom s.rule.pattern s.rule.replacement (e.write.getLast?.or b) r)
    {b : Option Char} (hb : b.any isWordChar = false) (r : Text) :
    replaceFrom s.rule.pattern s.rule.replacement b
        (Text.join (separator name) (es.map write) ++ ')' :: r) =
      Text.join (separator name) ((es.map s.turn).map write) ++
        ')' :: replaceFrom s.rule.pattern s.rule.replacement (some ')') r := by
  have hclose : ∀ b, replaceFrom s.rule.pattern s.rule.replacement b (')' :: r) =
      ')' :: replaceFrom s.rule.pattern s.rule.replacement (some ')') r :=
    fun b => replaceFrom_cons (h.calling.matchAt?_of_sign (by decide) (by decide))
  induction es generalizing b with
  | nil => exact hclose b
  | cons e es ihs =>
    have he := ih e List.mem_cons_self b
    cases es with
    | nil => exact (he (')' :: r) hb (shut_paren r)).trans (congrArg _ (hclose _))
    | cons d ds =>
      have hd := hforms d (by simp)
      have hnext := ihs (fun x hx => hforms x (List.mem_cons_of_mem e hx))
        (fun x hx => ih x (List.mem_cons_of_mem e hx)) (b := some ' ') (by decide)
      obtain ⟨t, ht, hjoin⟩ := exists_shut_of_join name d ds r
      have hquiet := h.calling.quiet_separator (b := e.write.getLast?.or b) name hd ht
      have hsep := replaceFrom_quiet (f := s.rule.replacement) hquiet
      rw [getLast?_separator, ← hjoin, hnext] at hsep
      have hcons : ∀ x y ys, Text.join (separator name) (x :: y :: ys) =
          x ++ (separator name ++ Text.join (separator name) (y :: ys)) :=
        fun x y ys => List.append_assoc _ _ _
      simp only [List.map_cons] at hsep ⊢
      rw [hcons, hcons, List.append_assoc, List.append_assoc, he _ hb (shut_separator name _), hsep,
        List.append_assoc, List.append_assoc]

/-- The name and the parenthesis stay or are put in place of others, and the rule goes on with the
parts. -/
theorem replaceFrom_node {g new : Text} {parts : List Expr} {b : Option Char} {r : Text}
    (hsep : separator new = separator g)
    (hname : replaceFrom s.rule.pattern s.rule.replacement b
        (g ++ ['('] ++ (Text.join (separator g) (parts.map write) ++ ')' :: r)) =
      new ++ ['('] ++ replaceFrom s.rule.pattern s.rule.replacement (some '(')
        (Text.join (separator g) (parts.map write) ++ ')' :: r))
    (hparts : replaceFrom s.rule.pattern s.rule.replacement (some '(')
        (Text.join (separator g) (parts.map write) ++ ')' :: r) =
      Text.join (separator g) ((parts.map s.turn).map write) ++
        ')' :: replaceFrom s.rule.pattern s.rule.replacement (some ')') r) :
    replaceFrom s.rule.pattern s.rule.replacement b ((node g parts).write ++ r) =
      (node new (parts.map s.turn)).write ++
        replaceFrom s.rule.pattern s.rule.replacement ((node g parts).write.getLast?.or b) r := by
  rw [write_node_append, hname, hparts, getLast?_write_node, write_node, hsep]
  simp

theorem replaceFrom_write (h : s.Rewrites P) {e : Expr} (he : e.Formed) (hP : e.All P)
    {b : Option Char} {r : Text} (hb : b.any isWordChar = false) (hr : Shut r) :
    replaceFrom s.rule.pattern s.rule.replacement b (e.write ++ r) = (s.turn e).write ++
      replaceFrom s.rule.pattern s.rule.replacement (e.write.getLast?.or b) r := by
  induction he generalizing b r with
  | atom ht => exact replaceFrom_quiet (h.calling.quiet_atom ht.paren_not_mem hr)
  | @node g parts hg hforms ih =>
    obtain ⟨hnode, hall⟩ := all_node_iff.1 hP
    have hform : (node g parts).Formed := .node hg hforms
    have hparts := h.replaceFrom_parts g hforms
      (fun e hmem b r hb hr => ih e hmem (hall e hmem) hb hr) (b := some '(') (by decide) r
    cases hreach : s.reaches g (parts.map text?) with
    | false =>
      rw [turn_missed hreach]
      refine replaceFrom_node rfl ?_ hparts
      have hnone : g ≠ [] → s.rule.pattern.matchAt? b
          (g ++ '(' :: (Text.join (separator g) (parts.map write) ++ ')' :: r)) = none := by
        intro hne
        have hmiss := h.misses (r := r) hform hnode hb hne hreach
        rw [write_node_append, List.append_assoc] at hmiss
        exact hmiss
      rw [replaceFrom_quiet (h.calling.quiet_name hg hnone), List.getLast?_concat]
      rfl
    | true =>
      cases hout : s.outcome g (parts.map write) with
      | rename new =>
        obtain ⟨hg', hnew, m, hm, htext, hput⟩ := h.renames (r := r) hform hnode hb hreach hout
        rw [turn_renamed hreach hout]
        refine replaceFrom_node ?_ ?_ hparts
        · rw [separator, separator, if_neg (by simpa using hnew), if_neg (by simpa using hg')]
        · rw [write_node_append] at hm
          rw [replaceFrom_hit hm htext, hput, List.getLast?_concat]
          rfl
      | replace e =>
        obtain ⟨m, hm, htext, hput⟩ := h.replaces (r := r) hform hnode hb hreach hout
        rw [turn_replaced hreach hout, replaceFrom_hit hm htext, hput]

/-- **A rule for calls is a map of trees.** What it makes of a written expression is the written
expression with the calls replaced that it reaches. -/
theorem applyTo_write (h : s.Rewrites P) {e : Expr} (he : e.Formed) (hP : e.All P) :
    s.rule.applyTo e.write = (s.turn e).write := by
  have hwhole := h.replaceFrom_write he hP (b := none) (r := []) rfl (Or.inl List.not_mem_nil)
  rw [List.append_nil, replaceFrom_nil, List.append_nil] at hwhole
  rw [TextRule.applyTo, replaceAll_eq]
  exact hwhole

end CallRule.Rewrites

end SqlScribe
