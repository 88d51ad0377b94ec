import SqlScribe.Dialect.Sybase
import SqlScribe.Proofs.Clause.Order

/-!
# Outlines under change

What may be done to an outline keeps its clauses in order, none of them twice: giving a clause a
body, changing a body in its place, putting the `;` there or taking it away, and making a limit of
a count. Main statements:

* `Outline.body?_set`, `Outline.others_set`: giving a clause a body does that and nothing else;
* `Outline.Ordered.change`: one change keeps the order;
* `Outline.ordered_of_mem_history`: so does every sequence of changes, at every step;
* `Outline.ordered_history_scan`: what holds at every step behind the scanner.
-/

namespace SqlScribe

/-! ## Changes -/

/-- What may be done to an outline. -/
inductive Change where
  /-- Gives a clause this body; the clause is put at its place where there is none. -/
  | set (kind : ClauseKind) (body : Text)
  /-- Changes the body of a clause where there is one. -/
  | edit (kind : ClauseKind) (f : Text → Text)
  /-- Puts the `;` at the end, or takes it away. -/
  | terminate (on : Bool)
  /-- Makes a limit of the count in front of the columns. -/
  | limitByTop

/-- The outline with one change made. -/
def Outline.change (o : Outline) : Change → Outline
  | .set k body => o.set k body
  | .edit k f => o.edit k f
  | .terminate on => { o with terminated := on }
  | .limitByTop => (Sybase.topToLimit? o).getD o

/-- The outline and what becomes of it, change by change. -/
def Outline.history (o : Outline) (changes : List Change) : List Outline := changes.scanl change o

namespace Outline

variable {o : Outline} {k l : ClauseKind}

/-! ## Giving a clause a body -/

theorem find?_editClauses (k l : ClauseKind) (f : Text → Text) (cs : List Clause) :
    (editClauses k f cs).find? (·.kind == l) =
      (cs.find? (·.kind == l)).map fun c => if l = k then ⟨k, f c.body⟩ else c := by
  induction cs with
  | nil => rfl
  | cons c cs ih =>
    rw [editClauses]
    by_cases hk : c.kind = k
    · by_cases hl : k = l
      · simp [hk, hl]
      · simp [hk, hl, Ne.symm hl]
    · by_cases hl : c.kind = l
      · subst hl
        simp [hk]
      · simp [hk, hl, ih]

/-- Changing a body changes that of one clause. -/
theorem body?_edit (o : Outline) (k l : ClauseKind) (f : Text → Text) :
    (o.edit k f).body? l = if l = k then (o.body? k).map f else o.body? l := by
  rw [body?, edit, find?_editClauses, Option.map_map]
  split
  · next h =>
    rw [h, body?, Option.map_map]
    rfl
  · rfl

theorem find?_insertClause {n : Clause} {cs : List Clause} (h : ∀ c ∈ cs, c.kind ≠ n.kind)
    (l : ClauseKind) : (insertClause n cs).find? (·.kind == l) =
      if l = n.kind then some n else cs.find? (·.kind == l) := by
  induction cs with
  | nil =>
    rcases eq_or_ne l n.kind with rfl | hl
    · simp [insertClause]
    · simp [insertClause, hl, Ne.symm hl]
  | cons c cs ih =>
    obtain ⟨hc, hcs⟩ := List.forall_mem_cons.1 h
    rw [insertClause]
    split
    · rcases eq_or_ne l n.kind with rfl | hl
      · simp
      · simp [hl, Ne.symm hl]
    · by_cases hl : c.kind = l
      · subst hl
        simp [hc]
      · simp [hl, ih hcs]

/-- A clause that is given a body has that body, and every other clause has the one it had. -/
theorem body?_set (o : Outline) (k l : ClauseKind) (body : Text) :
    (o.set k body).body? l = if l = k then some body else o.body? l := by
  rw [Outline.set]
  cases hhas : o.has k with
  | true =>
    rw [if_pos rfl, body?_edit]
    obtain ⟨b, hb⟩ := Option.isSome_iff_exists.1 hhas
    rw [hb, Option.map_some]
  | false =>
    rw [if_neg Bool.false_ne_true, body?, find?_insertClause (kind_ne_of_has_eq_false hhas)]
    split <;> rfl

/-- The clauses of other kinds stay as they are and in the order they had. -/
theorem others_set (o : Outline) (k : ClauseKind) (body : Text) :
    (o.set k body).clauses.filter (·.kind != k) = o.clauses.filter (·.kind != k) := by
  have hedit : ∀ cs : List Clause, (editClauses k (fun _ => body) cs).filter (·.kind != k) =
      cs.filter (·.kind != k) := by
    intro cs
    induction cs with
    | nil => rfl
    | cons c cs ih =>
      rw [editClauses]
      by_cases hc : c.kind = k <;> simp [hc, ih]
  have hinsert : ∀ cs : List Clause, (insertClause ⟨k, body⟩ cs).filter (·.kind != k) =
      cs.filter (·.kind != k) := by
    intro cs
    induction cs with
    | nil => simp [insertClause]
    | cons c cs ih =>
      rw [insertClause]
      split
      · simp
      · rw [List.filter_cons, ih, List.filter_cons]
  rw [Outline.set]
  split
  · exact hedit o.clauses
  · exact hinsert o.clauses

/-! ## One change and many -/

theorem Ordered.topToLimit? {o' : Outline} (h : Ordered o.clauses)
    (hlimit : Sybase.topToLimit? o = some o') : Ordered o'.clauses := by
  unfold Sybase.topToLimit? at hlimit
  split at hlimit
  · exact absurd hlimit (by simp)
  · split at hlimit
    · exact absurd hlimit (by simp)
    · obtain rfl := Option.some.inj hlimit
      split
      · exact h.edit .select _
      · exact (h.edit .select _).set .limit _

/-- One change keeps the order of the clauses. -/
theorem Ordered.change (h : Ordered o.clauses) (c : Change) : Ordered (o.change c).clauses := by
  cases c with
  | set k body => exact h.set k body
  | edit k f => exact h.edit k f
  | terminate on => exact h
  | limitByTop =>
    rw [Outline.change]
    cases hlimit : Sybase.topToLimit? o with
    | none => exact h
    | some o' => exact h.topToLimit? hlimit

/-- So does every sequence of changes, at every step. -/
theorem ordered_of_mem_history (h : Ordered o.clauses) (changes : List Change) :
    ∀ x ∈ o.history changes, Ordered x.clauses := by
  induction changes generalizing o with
  | nil => simpa [history] using h
  | cons c changes ih =>
    rw [history, List.scanl_cons, List.forall_mem_cons]
    exact ⟨h, ih (h.change c)⟩

/-- Clauses that stand in order are of different kinds. -/
theorem Ordered.nodup_kinds (h : Ordered o.clauses) : (o.clauses.map Clause.kind).Nodup := by
  refine List.pairwise_map.2 (h.imp fun hlt heq => ?_)
  exact absurd hlt (by simp [heq])

/-- **Clauses stay in order and none comes twice.** Whatever is done to the outline of a text, at
every step the clauses stand in the order of their kinds, so no kind is there twice, and a clause
that is given a body there has exactly that body, while the other clauses and the `;` at the end
stay as they are. -/
theorem ordered_history_scan (sql : Text) (changes : List Change) :
    ∀ o ∈ (scan sql).history changes,
      Ordered o.clauses ∧ (o.clauses.map Clause.kind).Nodup ∧
      ∀ k body, (o.set k body).body? k = some body ∧
        (∀ l, l ≠ k → (o.set k body).body? l = o.body? l) ∧
        (o.set k body).clauses.filter (·.kind != k) = o.clauses.filter (·.kind != k) ∧
        (o.set k body).terminated = o.terminated := by
  intro o ho
  have hordered := ordered_of_mem_history (ordered_scan sql) changes o ho
  refine ⟨hordered, hordered.nodup_kinds, fun k body => ⟨?_, fun l hl => ?_, ?_, ?_⟩⟩
  · rw [body?_set, if_pos rfl]
  · rw [body?_set, if_neg hl]
  · exact others_set o k body
  · exact terminated_set o k body

/-- A count becomes a limit before the statement has a table: the tables come in front of it. -/
theorem ordered_history_scan_top :
    ∃ o ∈ (scan "SELECT TOP 5 name").history
        [.limitByTop, .set .from "staff", .terminate true],
      o.clauses = [⟨.select, "name"⟩, ⟨.from, "staff"⟩, ⟨.limit, "5"⟩] ∧ Ordered o.clauses := by
  have hmem : (⟨[⟨.select, "name"⟩, ⟨.from, "staff"⟩, ⟨.limit, "5"⟩], true⟩ : Outline) ∈
      (scan "SELECT TOP 5 name").history [.limitByTop, .set .from "staff", .terminate true] := by
    decide +kernel
  exact ⟨_, hmem, rfl, (ordered_history_scan _ _ _ hmem).1⟩

end Outline

end SqlScribe
