import SqlScribe.Proofs.Expression.Rewriting

/-!
# Rules for calls one after the other

A translation is a list of rules for calls with the names that they write. Each rule is run once,
so of a nested call the inner ones have become others before the rule of the outer one is run.
Main statements:

* `CallRule.Sound.all_turn_iff`: what is true of all calls behind a rule;
* `Translation.Sound.applyTo_write`: the rules one after the other are a map of trees;
* `Translation.Sound.all_run_iff`: which calls are left behind all rules.
-/

namespace SqlScribe

open SqlScribe.Expr

/-- A rule for calls that is a map of trees. It writes names among `targets`, and in place of a
call whose arguments are texts it writes a call or operands in parentheses. -/
structure CallRule.Sound (s : CallRule) (targets : List Text)
    (P : Text → List (Option Text) → Prop) : Prop where
  applies : ∀ {e : Expr}, e.Formed → e.All P → s.rule.applyTo e.write = (s.turn e).write
  renames : ∀ {g new : Text} {parts : List Expr}, (node g parts).Formed →
    P g (parts.map text?) → s.reaches g (parts.map text?) = true →
    s.outcome g (parts.map write) = .rename new →
    new.asciiLower ∈ targets ∧ ∀ c ∈ new, isLabelChar c = true
  replaces : ∀ {g : Text} {e : Expr} {parts : List Expr}, (node g parts).Formed →
    P g (parts.map text?) → s.reaches g (parts.map text?) = true →
    s.outcome g (parts.map write) = .replace e →
    e.Formed ∧ e.text? = none ∧ e.All (fun g _ => g.asciiLower ∈ targets) ∧
      ∀ x ∈ parts, ∃ t, x = atom t

namespace Expr

variable {P Q : Text → List (Option Text) → Prop} {e : Expr}

theorem All.mono (he : e.Formed) (h : ∀ g args, P g args → Q g args) (hall : e.All P) :
    e.All Q := by
  induction he with
  | atom => trivial
  | node _ _ ih =>
    obtain ⟨hnode, hparts⟩ := all_node_iff.1 hall
    exact all_node_iff.2 ⟨h _ _ hnode, fun x hx => ih x hx (hparts x hx)⟩

end Expr

namespace CallRule

variable {s : CallRule} {targets : List Text} {P Q : Text → List (Option Text) → Prop} {e : Expr}

theorem turn_atom (s : CallRule) (t : Text) : s.turn (atom t) = atom t := by
  rw [turn]

/-- A rule for no function leaves every expression as it is. -/
theorem turn_eq_self (hnone : s.functions = []) (he : e.Formed) : s.turn e = e := by
  induction he with
  | atom => exact turn_atom s _
  | @node g parts _ _ ih =>
    have hmiss : s.reaches g (parts.map text?) = false := by
      rw [reaches, hnone]
      rfl
    rw [turn_missed hmiss, List.map_congr_left ih, List.map_id']

namespace Sound

theorem text?_turn (h : s.Sound targets P) (he : e.Formed) (hP : e.All P) :
    (s.turn e).text? = e.text? := by
  cases he with
  | atom => rw [turn_atom]
  | @node g parts hname hparts =>
    obtain ⟨hnode, -⟩ := all_node_iff.1 hP
    cases hreach : s.reaches g (parts.map text?) with
    | false =>
      rw [turn_missed hreach]
      rfl
    | true =>
      cases hout : s.outcome g (parts.map write) with
      | rename new =>
        rw [turn_renamed hreach hout]
        rfl
      | replace x =>
        rw [turn_replaced hreach hout, (h.replaces (.node hname hparts) hnode hreach hout).2.1]
        rfl

theorem map_text?_turn (h : s.Sound targets P) {parts : List Expr} (hforms : ∀ e ∈ parts, e.Formed)
    (hall : ∀ e ∈ parts, e.All P) : (parts.map s.turn).map text? = parts.map text? := by
  rw [List.map_map]
  exact List.map_congr_left fun e he => h.text?_turn (hforms e he) (hall e he)

theorem formed_turn (h : s.Sound targets P) (he : e.Formed) (hP : e.All P) :
    (s.turn e).Formed := by
  induction he with
  | atom ht =>
    rw [turn_atom]
    exact .atom ht
  | @node g parts hname hforms ih =>
    obtain ⟨hnode, hall⟩ := all_node_iff.1 hP
    have hparts : ∀ e ∈ parts.map s.turn, e.Formed := by
      intro e he
      obtain ⟨x, hx, rfl⟩ := List.mem_map.1 he
      exact ih x hx (hall x hx)
    cases hreach : s.reaches g (parts.map text?) with
    | false =>
      rw [turn_missed hreach]
      exact .node hname hparts
    | true =>
      cases hout : s.outcome g (parts.map write) with
      | rename new =>
        rw [turn_renamed hreach hout]
        exact .node (h.renames (.node hname hforms) hnode hreach hout).2 hparts
      | replace x =>
        rw [turn_replaced hreach hout]
        exact (h.replaces (.node hname hforms) hnode hreach hout).1

/-- **What is true behind a rule.** All calls behind the rule are so, if the calls that it does
not find are and the names that it writes always are. -/
theorem all_turn_iff (h : s.Sound targets P) (hQ : ∀ g args, g.asciiLower ∈ targets → Q g args)
    (he : e.Formed) (hP : e.All P) :
    (s.turn e).All Q ↔ e.All fun g args => s.reaches g args = false → Q g args := by
  induction he with
  | atom =>
    rw [turn_atom]
    exact Iff.rfl
  | @node g parts hname hforms ih =>
    obtain ⟨hnode, hall⟩ := all_node_iff.1 hP
    have hargs := h.map_text?_turn hforms hall
    have hparts : (∀ e ∈ parts.map s.turn, e.All Q) ↔
        ∀ e ∈ parts, e.All fun g args => s.reaches g args = false → Q g args := by
      rw [List.forall_mem_map]
      exact forall₂_congr fun x hx => ih x hx (hall x hx)
    cases hreach : s.reaches g (parts.map text?) with
    | false =>
      rw [turn_missed hreach, all_node_iff, all_node_iff, hargs, hparts, hreach]
      simp
    | true =>
      cases hout : s.outcome g (parts.map write) with
      | rename new =>
        have hnew := hQ new (parts.map text?) (h.renames (.node hname hforms) hnode hreach hout).1
        rw [turn_renamed hreach hout, all_node_iff, all_node_iff, hargs, hparts, hreach]
        simp [hnew]
      | replace x =>
        obtain ⟨hx, -, htargets, hatoms⟩ := h.replaces (.node hname hforms) hnode hreach hout
        have hleaves : ∀ e ∈ parts, e.All fun g args => s.reaches g args = false → Q g args := by
          intro e he
          obtain ⟨t, rfl⟩ := hatoms e he
          trivial
        rw [turn_replaced hreach hout, all_node_iff, hreach]
        exact iff_of_true (htargets.mono hx fun g args => hQ g args) ⟨by simp, hleaves⟩

end Sound

end CallRule

/-! ## Translations -/

/-- Rules for calls in the order they are run, and the names that they write. -/
structure Translation where
  rules : List CallRule
  targets : List Text

namespace Translation

/-- The functions whose calls the rules are for. -/
def functions (d : Translation) : List SqlFunction := d.rules.flatMap CallRule.functions

/-- The expression behind all rules. -/
def run (d : Translation) (e : Expr) : Expr := d.rules.foldl (fun e s => s.turn e) e

/-- A call that the rules have written, or one of a function with arguments that it takes. -/
def Known (d : Translation) (g : Text) (args : List (Option Text)) : Prop :=
  g.asciiLower ∈ d.targets ∨ ∃ f ∈ d.functions, f.name = g.asciiLower ∧ f.takes args = true

/-- A call that one of the rules finds. -/
def Reached (d : Translation) (g : Text) (args : List (Option Text)) : Prop :=
  ∃ f ∈ d.functions, f.name = g.asciiLower ∧ f.reaches args = true

instance (d : Translation) (g : Text) (args : List (Option Text)) : Decidable (d.Reached g args) :=
  decidable_of_iff (d.functions.any fun f => f.name == g.asciiLower && f.reaches args)
    (by simp [Reached])

/-- All rules are sound for the calls that the translation knows. -/
def Sound (d : Translation) : Prop := ∀ s ∈ d.rules, s.Sound d.targets d.Known

variable {d : Translation} {Q : Text → List (Option Text) → Prop} {e : Expr}

theorem reached_iff {g : Text} {args : List (Option Text)} :
    d.Reached g args ↔ ∃ s ∈ d.rules, s.reaches g args = true := by
  simp only [Reached, functions, List.mem_flatMap, CallRule.reaches, List.any_eq_true,
    Bool.and_eq_true, beq_iff_eq]
  constructor
  · rintro ⟨f, ⟨s, hs, hf⟩, hname, hreach⟩
    exact ⟨s, hs, f, hf, hname, hreach⟩
  · rintro ⟨s, hs, f, hf, hname, hreach⟩
    exact ⟨f, ⟨s, hs, hf⟩, hname, hreach⟩

/-- A rule keeps an expression one that the translation knows. -/
theorem Sound.known_turn (h : d.Sound) {s : CallRule} (hs : s ∈ d.rules) (he : e.Formed)
    (hd : e.All d.Known) : (s.turn e).All d.Known :=
  ((h s hs).all_turn_iff (fun _ _ hg => Or.inl hg) he hd).2
    (hd.mono he fun _ _ hknown _ => hknown)

/-- What some of the rules make of an expression. -/
theorem Sound.foldl_turn (h : d.Sound) {ss : List CallRule} (hss : ∀ s ∈ ss, s ∈ d.rules)
    (hQ : ∀ g args, g.asciiLower ∈ d.targets → Q g args) (he : e.Formed) (hd : e.All d.Known) :
    (ss.foldl (fun t s => s.rule.applyTo t) e.write = (ss.foldl (fun e s => s.turn e) e).write ∧
      (ss.foldl (fun e s => s.turn e) e).Formed ∧
      (ss.foldl (fun e s => s.turn e) e).text? = e.text?) ∧
    ((ss.foldl (fun e s => s.turn e) e).All Q ↔
      e.All fun g args => (∀ s ∈ ss, s.reaches g args = false) → Q g args) := by
  induction ss generalizing e with
  | nil => exact ⟨⟨rfl, he, rfl⟩, all_congr he fun g args => by simp⟩
  | cons s ss ih =>
    have hs := h s (hss s List.mem_cons_self)
    obtain ⟨⟨hwrite, hformed, htext⟩, hall⟩ := ih (fun r hr => hss r (List.mem_cons_of_mem s hr))
      (hs.formed_turn he hd) (h.known_turn (hss s List.mem_cons_self) he hd)
    refine ⟨⟨?_, hformed, htext.trans (hs.text?_turn he hd)⟩, ?_⟩
    · rw [List.foldl_cons, List.foldl_cons, hs.applies he hd, hwrite]
    · have hturn := hs.all_turn_iff (Q := fun g args => (∀ r ∈ ss, r.reaches g args = false) →
        Q g args) (fun g args hg _ => hQ g args hg) he hd
      rw [List.foldl_cons, hall, hturn]
      refine all_congr he fun g args => ?_
      rw [List.forall_mem_cons, and_imp]

/-- The rules one after the other are a map of trees, and what is a text stays one. -/
theorem Sound.foldl_applyTo (h : d.Sound) (he : e.Formed) (hd : e.All d.Known) :
    d.rules.foldl (fun t s => s.rule.applyTo t) e.write = (d.run e).write ∧ (d.run e).Formed ∧
      (d.run e).text? = e.text? :=
  (h.foldl_turn (Q := fun _ _ => True) (fun _ hs => hs) (fun _ _ _ => trivial) he hd).1

/-- **Which calls are left.** All calls behind the rules are so, if the calls that no rule finds
are and the names that the rules write always are. -/
theorem Sound.all_run_iff (h : d.Sound) (hQ : ∀ g args, g.asciiLower ∈ d.targets → Q g args)
    (he : e.Formed) (hd : e.All d.Known) :
    (d.run e).All Q ↔ e.All fun g args => ¬ d.Reached g args → Q g args := by
  rw [run, (h.foldl_turn (fun _ hs => hs) hQ he hd).2]
  refine all_congr he fun g args => ?_
  rw [reached_iff]
  simp

/-- No call of one of the functions is left exactly if every call of one is found. -/
theorem Sound.none_left_iff (h : d.Sound) (htargets : ∀ f ∈ d.functions, f.name ∉ d.targets)
    (he : e.Formed) (hd : e.All d.Known) :
    ((d.run e).All fun g _ => ∀ f ∈ d.functions, f.name ≠ g.asciiLower) ↔
      e.All fun g args => (∃ f ∈ d.functions, f.name = g.asciiLower) → d.Reached g args := by
  have hwritten : ∀ (g : Text) (_ : List (Option Text)), g.asciiLower ∈ d.targets →
      ∀ f ∈ d.functions, f.name ≠ g.asciiLower := by
    rintro g - hg f hf hname
    exact htargets f hf (hname ▸ hg)
  rw [h.all_run_iff hwritten he hd]
  refine all_congr he fun g args => ?_
  constructor
  · rintro hleft ⟨f, hf, hname⟩
    by_contra hmiss
    exact hleft hmiss f hf hname
  · intro hcalls hmiss f hf hname
    exact hmiss (hcalls ⟨f, hf, hname⟩)

end Translation

end SqlScribe
