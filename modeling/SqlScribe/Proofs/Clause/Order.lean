import SqlScribe.Proofs.Clause.Bodies

/-!
# The order of clauses

The clauses of an outline that was scanned stand in the order of their kinds, none of them
twice, and changing an outline keeps them so. Main statements:

* `rank_lt_of_opens?`: only later clauses open;
* `ordered_scan`: scanning finds the clauses in order;
* `Ordered.edit`, `Ordered.set`: changing a clause or putting one in keeps the order.
-/

namespace SqlScribe

namespace ClauseKind

theorem rank_injective : Function.Injective rank := by
  intro k l h
  cases k <;> cases l <;> first | rfl | exact absurd h (by decide)

theorem rank_pos {k : ClauseKind} (h : k ≠ leading) : 0 < k.rank := by
  refine Nat.pos_of_ne_zero fun h0 => h (rank_injective ?_)
  exact h0

theorem rank_le_limit (k : ClauseKind) : k.rank ≤ limit.rank := by
  cases k <;> decide

end ClauseKind

namespace Outline

/-- The clauses stand in order, and none of them twice. -/
def Ordered (cs : List Clause) : Prop := cs.Pairwise fun a b => a.kind.rank < b.kind.rank

/-- Only the kinds of the clauses count. -/
theorem Ordered.of_kinds {cs ds : List Clause} (h : Ordered cs)
    (hkinds : ds.map Clause.kind = cs.map Clause.kind) : Ordered ds := by
  have hmap : ∀ l : List Clause, Ordered l ↔
      (l.map Clause.kind).Pairwise fun a b => a.rank < b.rank := by
    intro l
    rw [Ordered, List.pairwise_map]
  rw [hmap, hkinds, ← hmap]
  exact h

/-! ## Scanning -/

/-- A clause that opens comes later than the one being read. -/
theorem rank_lt_of_opens? {k kind : ClauseKind} {before : Option Char} {t : Text} {n : Nat}
    (h : opens? k before t = some (kind, n)) : k.rank < kind.rank := by
  rw [opens?] at h
  obtain ⟨l, -, hl⟩ := List.exists_of_findSome?_eq_some h
  split at hl
  · next hlt =>
    obtain ⟨m, -, hm⟩ := Option.map_eq_some_iff.1 hl
    rwa [← (Prod.mk.inj hm).1]
  · exact absurd hl (by simp)

/-- Behind a clause that is being read come later ones, in order. -/
theorem ordered_split (k : ClauseKind) (n : Nesting) (before : Option Char) (skip : Nat)
    (t : Text) :
    Ordered (split k n before skip t).2 ∧
      ∀ c ∈ (split k n before skip t).2, k.rank < c.kind.rank := by
  induction t generalizing k n before skip with
  | nil =>
    have hnil : (split k n before skip []).2 = [] := by cases skip <;> rfl
    rw [hnil]
    exact ⟨.nil, fun c hc => absurd hc List.not_mem_nil⟩
  | cons d t ih =>
    cases skip with
    | succ skip => exact ih k n (some d) skip
    | zero =>
      rw [split]
      split
      · next kind length hopens =>
        obtain ⟨hordered, hlater⟩ := ih kind (n.read d) (some d) (length - 1)
        have hlt : k.rank < kind.rank := by
          split at hopens
          · exact rank_lt_of_opens? hopens
          · exact absurd hopens (by simp)
        refine ⟨List.pairwise_cons.2 ⟨hlater, hordered⟩, fun c hc => ?_⟩
        rcases List.mem_cons.1 hc with rfl | hc
        · exact hlt
        · exact hlt.trans (hlater c hc)
      · exact ih k (n.read d) (some d) 0

/-- Scanning finds the clauses in order. -/
theorem ordered_scan (sql : Text) : Ordered (scan sql).clauses := by
  rw [scan_clauses, clausesOf]
  obtain ⟨hordered, hlater⟩ := ordered_split .leading .top none 0 (bodyOf sql)
  split
  · exact hordered
  · exact List.pairwise_cons.2 ⟨hlater, hordered⟩

/-! ## Changing clauses -/

theorem kinds_editClauses (k : ClauseKind) (f : Text → Text) (cs : List Clause) :
    (editClauses k f cs).map Clause.kind = cs.map Clause.kind := by
  induction cs with
  | nil => rfl
  | cons c cs ih =>
    rw [editClauses]
    split
    · next h => rw [List.map_cons, List.map_cons, eq_of_beq h]
    · rw [List.map_cons, List.map_cons, ih]

theorem Ordered.edit {o : Outline} (h : Ordered o.clauses) (k : ClauseKind) (f : Text → Text) :
    Ordered (o.edit k f).clauses :=
  h.of_kinds (kinds_editClauses k f o.clauses)

/-- A clause is put in front of the later ones and behind the others. -/
theorem ordered_insertClause {n : Clause} {cs : List Clause} (h : Ordered cs)
    (hnew : ∀ c ∈ cs, c.kind ≠ n.kind) : Ordered (insertClause n cs) := by
  induction cs with
  | nil => exact List.pairwise_singleton _ _
  | cons c cs ih =>
    have hall := List.pairwise_cons.1 h
    rw [insertClause]
    split
    · next hlt =>
      refine List.pairwise_cons.2 ⟨fun x hx => ?_, h⟩
      rcases List.mem_cons.1 hx with rfl | hx
      · exact hlt
      · exact hlt.trans (hall.1 x hx)
    · next hle =>
      have hne : n.kind.rank ≠ c.kind.rank := fun heq =>
        hnew c List.mem_cons_self (ClauseKind.rank_injective heq.symm)
      refine List.pairwise_cons.2
        ⟨fun x hx => ?_, ih hall.2 fun x hx => hnew x (List.mem_cons_of_mem c hx)⟩
      rcases mem_insertClause hx with rfl | hx
      · omega
      · exact hall.1 x hx

theorem kind_ne_of_has_eq_false {o : Outline} {k : ClauseKind} (h : o.has k = false) :
    ∀ c ∈ o.clauses, c.kind ≠ k := by
  intro c hc hk
  have hfind : (o.clauses.find? fun c => c.kind == k) = none := by
    simpa [has, body?] using h
  exact absurd (List.find?_eq_none.1 hfind c hc) (by simp [hk])

theorem has_iff {o : Outline} {k : ClauseKind} :
    o.has k = true ↔ k ∈ o.clauses.map Clause.kind := by
  simp [has, body?, List.find?_isSome]

/-- Changing a clause neither adds nor takes one. -/
theorem has_edit (o : Outline) (k l : ClauseKind) (f : Text → Text) :
    (o.edit k f).has l = o.has l := by
  rw [Bool.eq_iff_iff, has_iff, has_iff, edit, kinds_editClauses]

theorem Ordered.set {o : Outline} (h : Ordered o.clauses) (k : ClauseKind) (b : Text) :
    Ordered (o.set k b).clauses := by
  rw [Outline.set]
  split
  · exact h.edit k _
  · next hhas =>
    exact ordered_insertClause h (kind_ne_of_has_eq_false (by simpa using hhas))

end Outline

end SqlScribe
