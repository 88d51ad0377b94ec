import SqlScribe.Dialect.Call
import SqlScribe.Proofs.Clause.Literal
import SqlScribe.Proofs.Pattern.Heads
import SqlScribe.Proofs.Text.Layout

/-!
# Expressions

Expressions as trees: texts without parentheses, and parts in parentheses behind the name of a
function or, for the operands of `||`, behind none. `write` gives their text. Main statements:

* `arguments_join`: texts that commas do not take apart are found again as arguments;
* `all_node_iff`: what is true of all calls of an expression;
* `Formed`: expressions whose texts and names can be told apart in what is written.
-/

namespace SqlScribe

namespace Text

/-! ## Texts that commas do not take apart -/

/-- Whether all commas stand in quotations and the last quotation is closed. -/
def uncut (quoted : Bool) : Text → Bool
  | [] => !quoted
  | c :: t => (c != ',' || quoted) && uncut (if c == '\'' then !quoted else quoted) t

/-- A text in front of the first of some pieces. -/
def glue (t : Text) : List Text → List Text
  | [] => [t]
  | s :: ss => (t ++ s) :: ss

theorem cutUnquoted_ne_nil (quoted : Bool) (t : Text) : cutUnquoted quoted t ≠ [] := by
  cases t with
  | nil => simp [cutUnquoted]
  | cons c t =>
    rw [cutUnquoted]
    split
    · simp
    · split <;> simp

theorem cutUnquoted_append {quoted : Bool} {t : Text} (h : uncut quoted t = true) (r : Text) :
    cutUnquoted quoted (t ++ r) = glue t (cutUnquoted false r) := by
  induction t generalizing quoted with
  | nil =>
    obtain rfl : quoted = false := by simpa [uncut] using h
    obtain ⟨s, ss, hs⟩ := List.exists_cons_of_ne_nil (cutUnquoted_ne_nil false r)
    rw [List.nil_append, hs]
    rfl
  | cons c t ih =>
    rw [uncut, Bool.and_eq_true] at h
    have hcomma : (c == ',' && !quoted) = false := by
      rw [← Bool.not_eq_true', Bool.not_and, Bool.not_not]
      exact h.1
    obtain ⟨s, ss, hs⟩ := List.exists_cons_of_ne_nil (cutUnquoted_ne_nil false r)
    rw [List.cons_append, cutUnquoted, hcomma, ih h.2, hs]
    rfl

theorem trim_cons_space (t : Text) : trim (' ' :: t) = trim t := by
  rw [trim, trim, trimStart, List.dropWhile_cons_of_pos (by decide), trimStart]

theorem cutUnquoted_join {ts : List Text} (hne : ts ≠ [])
    (huncut : ∀ t ∈ ts, uncut false t = true) :
    cutUnquoted false (join [','] ts) = ts := by
  induction ts with
  | nil => exact absurd rfl hne
  | cons t ts ih =>
    have ht := huncut t List.mem_cons_self
    by_cases hnil : ts = []
    · subst hnil
      have hcut := cutUnquoted_append ht []
      rw [List.append_nil] at hcut
      rw [join, hcut, cutUnquoted, glue, List.append_nil]
    · have hcomma : cutUnquoted false (',' :: join [','] ts)
          = [] :: cutUnquoted false (join [','] ts) := rfl
      rw [join_cons _ _ hnil, List.append_assoc, List.singleton_append, cutUnquoted_append ht,
        hcomma, ih hnil fun u hu => huncut u (List.mem_cons_of_mem t hu), glue, List.append_nil]

/-- The arguments of a list that is written with commas. -/
theorem arguments_join {ts : List Text} (hne : ts ≠ []) (huncut : ∀ t ∈ ts, uncut false t = true) :
    arguments (join [','] ts) = ts.map trim := by
  rw [arguments, cutUnquoted_join hne huncut]

/-- Commas and spaces are commas in front of texts with a space before them. -/
theorem join_comma_space (t : Text) (ts : List Text) :
    join [',', ' '] (t :: ts) = join [','] (t :: ts.map (' ' :: ·)) := by
  induction ts generalizing t with
  | nil => rfl
  | cons u us ih =>
    have hspace : ∀ vs : List Text, join [','] ((' ' :: u) :: vs)
        = ' ' :: join [','] (u :: vs) := by
      intro vs
      cases vs <;> rfl
    rw [join_cons _ _ (List.cons_ne_nil u us), ih u, List.map_cons,
      join_cons [','] _ (List.cons_ne_nil _ _), hspace, List.append_assoc, List.append_assoc]
    rfl

/-- The arguments of a list that is written with commas and spaces. -/
theorem arguments_join_spaced {ts : List Text} (hne : ts ≠ [])
    (huncut : ∀ t ∈ ts, uncut false t = true) (htrim : ∀ t ∈ ts, trim t = t) :
    arguments (join [',', ' '] ts) = ts := by
  obtain ⟨t, ts, rfl⟩ := List.exists_cons_of_ne_nil hne
  obtain ⟨ht, hts⟩ := List.forall_mem_cons.1 huncut
  obtain ⟨htrim, htrims⟩ := List.forall_mem_cons.1 htrim
  have hspaced : ∀ u ∈ ts.map (' ' :: ·), uncut false u = true := List.forall_mem_map.2 hts
  rw [join_comma_space,
    arguments_join (List.cons_ne_nil _ _) (List.forall_mem_cons.2 ⟨ht, hspaced⟩), List.map_cons,
    htrim, List.map_map]
  refine congrArg _ ((List.map_congr_left fun u hu => ?_).trans (List.map_id ts))
  exact (trim_cons_space u).trans (htrims u hu)

end Text

/-! ## Trees -/

/-- An expression: a text without parentheses of its own, or parts in parentheses. Behind the
name of a function the parts are its arguments, without one they are the operands of `||`. -/
inductive Expr where
  | atom (t : Text)
  | node (name : Text) (parts : List Expr)

namespace Expr

/-- What stands between the parts behind a name. -/
def separator (name : Text) : Text := if name.isEmpty then " || " else ", "

mutual

/-- The text of an expression. -/
def write : Expr → Text
  | atom t => t
  | node name parts => name ++ '(' :: (Text.join (separator name) (writeAll parts) ++ [')'])

/-- The texts of expressions. -/
def writeAll : List Expr → List Text
  | [] => []
  | e :: es => e.write :: writeAll es

end

@[simp] theorem writeAll_eq (es : List Expr) : writeAll es = es.map write := by
  induction es with
  | nil => rfl
  | cons e es ih => rw [writeAll, ih, List.map_cons]

theorem write_node (name : Text) (parts : List Expr) :
    (node name parts).write =
      name ++ '(' :: (Text.join (separator name) (parts.map write) ++ [')']) := by
  rw [write, writeAll_eq]

/-- The text of an expression without parentheses. -/
def text? : Expr → Option Text
  | atom t => some t
  | node _ _ => none

mutual

/-- What is said of the name and the arguments is true of every call in the expression. Of an
argument with parentheses no text is given. -/
def All (P : Text → List (Option Text) → Prop) : Expr → Prop
  | atom _ => True
  | node name parts => P name (parts.map text?) ∧ AllOf P parts

/-- It is true of every call in one of the expressions. -/
def AllOf (P : Text → List (Option Text) → Prop) : List Expr → Prop
  | [] => True
  | e :: es => e.All P ∧ AllOf P es

end

mutual

/-- What can be decided of a call can be decided of all calls. -/
instance decidableAll (P : Text → List (Option Text) → Prop) [∀ g args, Decidable (P g args)] :
    (e : Expr) → Decidable (e.All P)
  | atom _ => .isTrue trivial
  | node name parts =>
      have := decidableAllOf P parts
      inferInstanceAs (Decidable (P name (parts.map text?) ∧ AllOf P parts))

instance decidableAllOf (P : Text → List (Option Text) → Prop) [∀ g args, Decidable (P g args)] :
    (es : List Expr) → Decidable (AllOf P es)
  | [] => .isTrue trivial
  | e :: es =>
      have := decidableAll P e
      have := decidableAllOf P es
      inferInstanceAs (Decidable (e.All P ∧ AllOf P es))

end

theorem map_write_atom (ts : List Text) : (ts.map atom).map write = ts := by
  rw [List.map_map]
  exact List.map_id' ts

theorem map_text?_atom (ts : List Text) : (ts.map atom).map text? = ts.map some := by
  rw [List.map_map]
  rfl

variable {P Q : Text → List (Option Text) → Prop} {name : Text} {parts : List Expr} {t : Text}

theorem allOf_iff {es : List Expr} : AllOf P es ↔ ∀ e ∈ es, e.All P := by
  induction es with
  | nil => simp [AllOf]
  | cons e es ih => rw [AllOf, ih, List.forall_mem_cons]

theorem all_node_iff :
    (node name parts).All P ↔ P name (parts.map text?) ∧ ∀ e ∈ parts, e.All P := by
  rw [All, allOf_iff]

/-! ## Well-formed trees -/

/-- A text that stands for itself in an expression: it holds no parenthesis and no mark of a
quoted name, all its quotations are closed, and no comma takes it apart. -/
structure Plain (t : Text) : Prop where
  ne_nil : t ≠ []
  marks : ∀ c ∈ t, c ∉ ['(', ')', '[', ']', '\x60']
  head : ∀ c, t.head? = some c → isBlank c = false
  last : ∀ c, t.getLast? = some c → isBlank c = false
  closed : Text.Closed t
  uncut : Text.uncut false t = true

/-- An expression of plain texts and of calls of functions with names of ASCII letters. -/
inductive Formed : Expr → Prop
  | atom {t : Text} (h : Plain t) : Formed (atom t)
  | node {name : Text} {parts : List Expr} (hname : ∀ c ∈ name, isLabelChar c = true)
      (hparts : ∀ e ∈ parts, Formed e) : Formed (node name parts)

/-- No mark of a quoted name stands in what is written. -/
theorem Formed.mark_not_mem {e : Expr} (he : Formed e) : ∀ c ∈ e.write, c ∉ ['[', ']', '\x60'] := by
  induction he with
  | atom ht =>
    intro c hc hmark
    exact ht.marks c hc (List.mem_cons_of_mem _ (List.mem_cons_of_mem _ hmark))
  | @node name parts hname _ ih =>
    have hsep : ∀ c ∈ separator name, c ∉ ['[', ']', '\x60'] := by
      rw [separator]
      split <;> decide
    intro c hc hmark
    simp only [write_node, List.mem_append, List.mem_cons, List.not_mem_nil, or_false] at hc
    rcases hc with hc | rfl | hc | rfl
    · have hlabel := hname c hc
      simp only [List.mem_cons, List.not_mem_nil, or_false] at hmark
      rcases hmark with rfl | rfl | rfl <;> exact absurd hlabel (by decide)
    · exact absurd hmark (by decide)
    · rcases Text.mem_join hc with hc | ⟨t, ht, hc⟩
      · exact hsep c hc hmark
      · obtain ⟨e, he, rfl⟩ := List.mem_map.1 ht
        exact ih e he c hc hmark
    · exact absurd hmark (by decide)

theorem all_congr {e : Expr} (he : Formed e) (h : ∀ g args, P g args ↔ Q g args) :
    e.All P ↔ e.All Q := by
  induction he with
  | atom => exact Iff.rfl
  | node _ _ ih =>
    rw [all_node_iff, all_node_iff, h]
    exact and_congr_right' (forall₂_congr ih)

/-- Where something is true of all calls it need not be asked for. -/
theorem all_imp_iff {e : Expr} (he : Formed e) (h : e.All P) :
    (e.All fun g args => P g args → Q g args) ↔ e.All Q := by
  induction he with
  | atom => exact Iff.rfl
  | node _ _ ih =>
    rw [all_node_iff] at h
    rw [all_node_iff, all_node_iff, forall_prop_of_true h.1]
    exact and_congr_right' (forall₂_congr fun x hx => ih x hx (h.2 x hx))

/-- What is true of all calls for each of some things is true of each call for all of them. -/
theorem all_forall_iff {ι : Type} {s : List ι} {R : ι → Text → List (Option Text) → Prop} {e : Expr}
    (he : Formed e) : (∀ i ∈ s, e.All (R i)) ↔ e.All fun g args => ∀ i ∈ s, R i g args := by
  induction he with
  | atom => exact iff_of_true (fun _ _ => trivial) trivial
  | node _ _ ih =>
    simp only [all_node_iff, forall_and]
    refine and_congr_right' ?_
    rw [← forall₂_congr ih]
    exact ⟨fun h x hx i hi => h i hi x hx, fun h i hi x hx => h x hx i hi⟩

end Expr

end SqlScribe
