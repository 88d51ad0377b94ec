import SqlScribe.Proofs.Text.Layout
import SqlScribe.Clause.Scan

/-!
# The characters of clauses

Where the characters of an outline come from. Main statements:

* `mem_of_mem_clausesOf`: scanning puts nothing into a clause that is not in the text;
* `mem_writeClause`: what is written of a clause is in it, in its word, or a space;
* `Avoids.set`, `Avoids.edit`: changing a clause brings in no other characters than those
  of its new body.
-/

namespace SqlScribe

namespace Outline

/-! ## Scanning -/

/-- The pieces of a text that is split hold only its characters. -/
theorem mem_of_mem_split (k : ClauseKind) (n : Nesting) (before : Option Char) (skip : Nat)
    (t : Text) :
    (∀ c ∈ (split k n before skip t).1, c ∈ t) ∧
      ∀ cl ∈ (split k n before skip t).2, ∀ c ∈ cl.body, c ∈ t := by
  induction t generalizing k n before skip with
  | nil => cases skip <;> simp [split]
  | cons d t ih =>
    have hcons : ∀ c, c ∈ t → c ∈ d :: t := fun c hc => List.mem_cons_of_mem d hc
    cases skip with
    | succ skip =>
      rw [split]
      exact ⟨fun c hc => hcons c ((ih k n (some d) skip).1 c hc),
        fun cl hcl c hc => hcons c ((ih k n (some d) skip).2 cl hcl c hc)⟩
    | zero =>
      rw [split]
      split
      · next kind length _ =>
        obtain ⟨hbody, hrest⟩ := ih kind (n.read d) (some d) (length - 1)
        refine ⟨fun c hc => absurd hc List.not_mem_nil, fun cl hcl c hc => ?_⟩
        rcases List.mem_cons.1 hcl with rfl | hcl
        · exact hcons c (hbody c (Text.mem_of_mem_trim hc))
        · exact hcons c (hrest cl hcl c hc)
      · obtain ⟨hbody, hrest⟩ := ih k (n.read d) (some d) 0
        refine ⟨fun c hc => ?_, fun cl hcl c hc => hcons c (hrest cl hcl c hc)⟩
        rcases List.mem_cons.1 hc with rfl | hc
        · exact List.mem_cons_self
        · exact hcons c (hbody c hc)

/-- A clause holds only characters of the text it was found in. -/
theorem mem_of_mem_clausesOf {t : Text} {cl : Clause} (h : cl ∈ clausesOf t) {c : Char}
    (hc : c ∈ cl.body) : c ∈ t := by
  obtain ⟨hbody, hrest⟩ := mem_of_mem_split .leading .top none 0 t
  rw [clausesOf] at h
  split at h
  · exact hrest cl h c hc
  · rcases List.mem_cons.1 h with rfl | h
    · exact hbody c (Text.mem_of_mem_trim hc)
    · exact hrest cl h c hc

/-! ## Texts with one semicolon -/

theorem scan_clauses (sql : Text) : (scan sql).clauses = clausesOf (bodyOf sql) := by
  rw [scan]

theorem bodyOf_concat_semicolon {b : Text} (h : Text.SingleSpaced (b ++ [';'])) (hb : ';' ∉ b) :
    bodyOf (b ++ [';']) = Text.trimEnd b := by
  have hlast : ∀ c, b.getLast? = some c → (c == ';') = false := by
    intro c hc
    refine beq_eq_false_iff_ne.2 ?_
    rintro rfl
    exact hb (List.mem_of_getLast? hc)
  rw [bodyOf, h.trim_eq_self, Text.dropEnd_concat_of_pos (by decide),
    Text.dropEnd_eq_self hlast]

theorem scan_terminated {b : Text} (h : Text.SingleSpaced (b ++ [';'])) :
    (scan (b ++ [';'])).terminated = true := by
  rw [scan, h.trim_eq_self]
  simp [Text.endsWith]

/-! ## Characters that an outline is without -/

/-- The character stands in no clause. -/
def Avoids (o : Outline) (x : Char) : Prop := ∀ cl ∈ o.clauses, x ∉ cl.body

theorem scan_avoids {b : Text} (h : Text.SingleSpaced (b ++ [';'])) (hb : ';' ∉ b) :
    (scan (b ++ [';'])).Avoids ';' := by
  intro cl hcl hc
  rw [scan_clauses, bodyOf_concat_semicolon h hb] at hcl
  exact hb (Text.mem_of_mem_dropEnd (mem_of_mem_clausesOf hcl hc))

theorem Avoids.body {o : Outline} {x : Char} (h : o.Avoids x) {k : ClauseKind} {b : Text}
    (hb : o.body? k = some b) : x ∉ b := by
  rw [body?, Option.map_eq_some_iff] at hb
  obtain ⟨cl, hcl, rfl⟩ := hb
  exact h cl (List.mem_of_find?_eq_some hcl)

theorem mem_editClauses {k : ClauseKind} {f : Text → Text} {cs : List Clause} {cl : Clause}
    (h : cl ∈ editClauses k f cs) : cl ∈ cs ∨ ∃ old ∈ cs, cl = ⟨k, f old.body⟩ := by
  induction cs with
  | nil => exact absurd h List.not_mem_nil
  | cons c cs ih =>
    rw [editClauses] at h
    split at h
    · rcases List.mem_cons.1 h with rfl | h
      · exact Or.inr ⟨c, List.mem_cons_self, rfl⟩
      · exact Or.inl (List.mem_cons_of_mem _ h)
    · rcases List.mem_cons.1 h with rfl | h
      · exact Or.inl List.mem_cons_self
      · rcases ih h with h | ⟨old, hold, rfl⟩
        · exact Or.inl (List.mem_cons_of_mem _ h)
        · exact Or.inr ⟨old, List.mem_cons_of_mem _ hold, rfl⟩

/-- Of a clause that is there a changed list has the same clause, or the changed one if it is the
first of its kind. -/
theorem mem_editClauses_of_mem {k : ClauseKind} {f : Text → Text} {cs : List Clause} {c : Clause}
    (hc : c ∈ cs) : c ∈ editClauses k f cs ∨
      (cs.find? fun d => d.kind == k) = some c ∧ ⟨k, f c.body⟩ ∈ editClauses k f cs := by
  induction cs with
  | nil => exact absurd hc List.not_mem_nil
  | cons d cs ih =>
    rw [editClauses]
    cases hd : d.kind == k with
    | true =>
      rw [if_pos rfl, List.find?_cons, hd]
      rcases List.mem_cons.1 hc with rfl | hc
      · exact Or.inr ⟨rfl, List.mem_cons_self⟩
      · exact Or.inl (List.mem_cons_of_mem _ hc)
    | false =>
      rw [if_neg Bool.false_ne_true, List.find?_cons, hd]
      rcases List.mem_cons.1 hc with rfl | hc
      · exact Or.inl List.mem_cons_self
      · exact (ih hc).imp (List.mem_cons_of_mem _) fun h => ⟨h.1, List.mem_cons_of_mem _ h.2⟩

theorem mem_insertClause {n : Clause} {cs : List Clause} {cl : Clause}
    (h : cl ∈ insertClause n cs) : cl = n ∨ cl ∈ cs := by
  induction cs with
  | nil => exact Or.inl (List.mem_singleton.1 h)
  | cons c cs ih =>
    rw [insertClause] at h
    split at h
    · exact List.mem_cons.1 h
    · rcases List.mem_cons.1 h with rfl | h
      · exact Or.inr List.mem_cons_self
      · exact (ih h).imp_right (List.mem_cons_of_mem _)

theorem mem_insertClause_of_mem {n : Clause} {cs : List Clause} {c : Clause} (hc : c ∈ cs) :
    c ∈ insertClause n cs := by
  induction cs with
  | nil => exact absurd hc List.not_mem_nil
  | cons d cs ih =>
    rw [insertClause]
    split
    · exact List.mem_cons_of_mem _ hc
    · rcases List.mem_cons.1 hc with rfl | hc
      · exact List.mem_cons_self
      · exact List.mem_cons_of_mem _ (ih hc)

theorem Avoids.edit {o : Outline} {x : Char} (h : o.Avoids x) (k : ClauseKind) {f : Text → Text}
    (hf : ∀ b, x ∉ f b) : (o.edit k f).Avoids x := by
  intro cl hcl
  rcases mem_editClauses hcl with hcl | ⟨old, -, rfl⟩
  · exact h cl hcl
  · exact hf old.body

theorem Avoids.set {o : Outline} {x : Char} (h : o.Avoids x) (k : ClauseKind) {b : Text}
    (hb : x ∉ b) : (o.set k b).Avoids x := by
  rw [Outline.set]
  split
  · exact h.edit k fun _ => hb
  · intro cl hcl
    rcases mem_insertClause hcl with rfl | hcl
    · exact hb
    · exact h cl hcl

@[simp] theorem terminated_set (o : Outline) (k : ClauseKind) (b : Text) :
    (o.set k b).terminated = o.terminated := by
  rw [Outline.set]
  split <;> rfl

/-! ## Writing -/

theorem mem_writeClause {cl : Clause} {c : Char} (h : c ∈ writeClause cl) :
    c = ' ' ∨ c ∈ cl.kind.word ∨ c ∈ cl.body := by
  rw [writeClause] at h
  split at h
  · exact Or.inr (Or.inr h)
  · rcases List.mem_append.1 h with h | h
    · rcases List.mem_append.1 h with h | h
      · exact Or.inr (Or.inl h)
      · exact Or.inl (List.mem_singleton.1 h)
    · exact Or.inr (Or.inr h)

theorem semicolon_not_mem_word (k : ClauseKind) : ';' ∉ k.word := by cases k <;> decide

/-- An outline of clauses without semicolons is written with one at most, at the end. -/
theorem semicolon_not_mem_collapse {o : Outline} (h : o.Avoids ';') :
    ';' ∉ Text.collapse (Text.join " " (o.clauses.map writeClause)) := by
  intro hc
  rcases Text.mem_collapse hc with hc | hc
  · exact absurd hc (by decide)
  · rcases Text.mem_join hc with hc | ⟨t, ht, hc⟩
    · exact absurd hc (by decide)
    · obtain ⟨cl, hcl, rfl⟩ := List.mem_map.1 ht
      rcases mem_writeClause hc with hc | hc | hc
      · exact absurd hc (by decide)
      · exact semicolon_not_mem_word _ hc
      · exact h cl hcl hc

end Outline

end SqlScribe
