import SqlScribe.Proofs.Expression.Scanning
import SqlScribe.Proofs.Text.Squeeze

/-!
# Expressions in the layout of a statement

When a statement is written every run of blanks becomes a single space, in the texts of an
expression as well as between them. Main statements:

* `squeeze_append`: runs of blanks end with the texts they stand in;
* `Formed.write_squeeze`: an expression is laid out text by text;
* `render_selecting`: what is written of a selection.
-/

namespace SqlScribe

namespace Text

/-- Where commas stand outside of quotations does not depend on the layout. -/
theorem uncut_squeeze (quoted : Bool) (t : Text) : uncut quoted (squeeze t) = uncut quoted t := by
  induction t generalizing quoted with
  | nil => rfl
  | cons c t ih =>
    have hblank : ∀ {x : Char} {u : Text}, isBlank x = true →
        uncut quoted (x :: u) = uncut quoted u := by
      intro x u hx
      have hcomma : x ≠ ',' := by
        rintro rfl
        exact absurd hx (by decide)
      have hquote : x ≠ '\'' := by
        rintro rfl
        exact absurd hx (by decide)
      simp [uncut, hcomma, hquote]
    rw [squeeze]
    split
    · next hc =>
      rw [hblank hc]
      split
      · exact ih quoted
      · rw [hblank (by decide), ih]
    · rw [uncut, uncut, ih]

theorem squeeze_join {sep : Text} {ts : List Text} (hne : ∀ t ∈ ts, t ≠ [])
    (hhead : ∀ t ∈ ts, ∀ c, t.head? = some c → isBlank c = false)
    (hlast : ∀ t ∈ ts, ∀ c, t.getLast? = some c → isBlank c = false) :
    squeeze (join sep ts) = join (squeeze sep) (ts.map squeeze) := by
  induction ts with
  | nil => rfl
  | cons t ts ih =>
    by_cases hnil : ts = []
    · subst hnil
      rfl
    · have hrest := ih (fun u hu => hne u (List.mem_cons_of_mem t hu))
        (fun u hu => hhead u (List.mem_cons_of_mem t hu))
        fun u hu => hlast u (List.mem_cons_of_mem t hu)
      have hstart : ∀ c, (join sep ts).head? = some c → isBlank c = false := by
        obtain ⟨u, us, rfl⟩ := List.exists_cons_of_ne_nil hnil
        obtain ⟨x, u, rfl⟩ := List.exists_cons_of_ne_nil (hne u (by simp))
        intro c hc
        refine hhead (x :: u) (by simp) c ?_
        cases us with
        | nil => exact hc
        | cons v us => exact hc
      rw [join_cons _ _ hnil, List.map_cons, join_cons _ _ (by simpa using hnil), List.append_assoc,
        squeeze_append (.inl (hlast t List.mem_cons_self)), squeeze_append (.inr hstart), hrest,
        List.append_assoc]

end Text

namespace Expr

mutual

/-- The expression with every run of blanks in its texts written as one space. -/
def squeeze : Expr → Expr
  | atom t => atom (Text.squeeze t)
  | node name parts => node name (squeezeAll parts)

/-- The expressions with every run of blanks in their texts written as one space. -/
def squeezeAll : List Expr → List Expr
  | [] => []
  | e :: es => e.squeeze :: squeezeAll es

end

@[simp] theorem squeezeAll_eq (es : List Expr) : squeezeAll es = es.map squeeze := by
  induction es with
  | nil => rfl
  | cons e es ih => rw [squeezeAll, ih, List.map_cons]

theorem squeeze_node (name : Text) (parts : List Expr) :
    (node name parts).squeeze = node name (parts.map squeeze) := by
  rw [squeeze, squeezeAll_eq]

theorem Plain.squeeze {t : Text} (h : Plain t) : Plain (Text.squeeze t) := by
  have hends : (Text.squeeze t).head? = t.head? :=
    (Text.head?_squeeze t).trans (map_asSpace_of_not_blank h.head)
  refine ⟨?_, fun c hc => ?_, ?_, ?_, ?_, ?_⟩
  · intro hnil
    rw [hnil] at hends
    exact h.ne_nil (List.head?_eq_none_iff.1 hends.symm)
  · rcases Text.mem_of_mem_squeeze hc with rfl | hc
    · decide
    · exact h.marks c hc
  · rw [hends]
    exact h.head
  · rw [Text.getLast?_squeeze, map_asSpace_of_not_blank h.last]
    exact h.last
  · exact (Text.closingAt_squeeze Text.isClosing_none t).trans h.closed
  · exact (Text.uncut_squeeze false t).trans h.uncut

theorem Formed.squeeze {e : Expr} (he : e.Formed) : e.squeeze.Formed := by
  induction he with
  | atom ht =>
    rw [Expr.squeeze]
    exact .atom ht.squeeze
  | @node g parts hg _ ih =>
    rw [squeeze_node]
    refine .node hg fun e he => ?_
    obtain ⟨x, hx, rfl⟩ := List.mem_map.1 he
    exact ih x hx

theorem all_squeeze_iff {e : Expr} (he : e.Formed) {P : Text → Prop} :
    (e.squeeze.All fun g _ => P g) ↔ e.All fun g _ => P g := by
  induction he with
  | atom =>
    rw [Expr.squeeze]
    exact Iff.rfl
  | @node g parts _ _ ih =>
    rw [squeeze_node, all_node_iff, all_node_iff, List.forall_mem_map]
    exact and_congr_right' (forall₂_congr ih)

theorem squeeze_separator (name : Text) : Text.squeeze (separator name) = separator name := by
  rw [separator]
  split <;> decide

/-- **An expression is laid out text by text.** -/
theorem Formed.write_squeeze {e : Expr} (he : e.Formed) :
    Text.squeeze e.write = e.squeeze.write := by
  induction he with
  | atom => rw [Expr.squeeze, write, write]
  | @node g parts hg hparts ih =>
    have hjoin : Text.squeeze (Text.join (separator g) (parts.map write)) =
        Text.join (separator g) ((parts.map Expr.squeeze).map write) := by
      rw [Text.squeeze_join (List.forall_mem_map.2 fun e he => write_ne_nil (hparts e he))
        (List.forall_mem_map.2 fun e he => head_write (hparts e he))
        (List.forall_mem_map.2 fun e he => last_write (hparts e he)), squeeze_separator,
        List.map_map, List.map_map]
      exact congrArg _ (List.map_congr_left ih)
    have hname : Text.squeeze g = g :=
      Text.squeeze_eq_self fun c hc => isBlank_of_isLabelChar (hg c hc)
    have hparen : ∀ {t u : Text} {x : Char}, isBlank x = false →
        Text.squeeze (t ++ x :: u) = Text.squeeze t ++ Text.squeeze (x :: u) := fun hx =>
      Text.squeeze_append (.inr fun c hc => Option.some.inj hc ▸ hx)
    have hopen : ∀ t : Text, Text.squeeze ('(' :: t) = '(' :: Text.squeeze t := fun _ => rfl
    rw [squeeze_node, write_node, write_node, hparen (by decide), hname, hopen, hparen (by decide),
      hjoin]
    rfl

end Expr

namespace Outline

theorem render_selecting {b : Text} (hne : b ≠ [])
    (hhead : ∀ c, b.head? = some c → isBlank c = false)
    (hlast : ∀ c, b.getLast? = some c → isBlank c = false) :
    render ⟨[⟨.select, b⟩, ⟨.from, ['t']⟩], false⟩ = selecting (Text.squeeze b) := by
  have hwritten : Text.join " " ([⟨.select, b⟩, ⟨.from, ['t']⟩].map writeClause) = selecting b := by
    rw [selecting_eq]
    simp [Text.join, writeClause]
  have hsqueeze : Text.squeeze (selecting b) = selecting (Text.squeeze b) := by
    unfold selecting
    rw [Text.squeeze_append (.inl fun c hc => ?_), Text.squeeze_append (.inr hhead)]
    · rfl
    · rw [List.getLast?_append_of_ne_nil _ hne] at hc
      exact hlast c hc
  rw [render, hwritten, Text.collapse_eq_trim_squeeze, hsqueeze, trim_selecting]
  simp

end Outline

end SqlScribe
