import Mathlib.Algebra.Group.Nat.Defs
import SqlScribe.Proofs.Plan.Outline
import SqlScribe.Proofs.Statement.Tame

/-!
# Short statements

A statement that is put together from few and short parts is accepted. Main statements:

* `tame_ofNat`, `Date.tame_text`: numbers and days;
* `Predicate.tame_sql`: conditions;
* `SelectParts.Modest.accepted`: a statement of modest parts passes the gate.
-/

namespace SqlScribe

open Statement (Tame Seam isBreak isSeparator)

/-! ## Words -/

/-- The words and signs that statements are written with, besides names and literals. -/
def statementWords : List Text := [
  " ", ", ", " AND ", " BETWEEN ", "'", "-", "*", "=", ">=", "<=", "BETWEEN", "SELECT", "FROM",
  "WHERE", "GROUP BY", "HAVING", "ORDER BY", "LIMIT", "ASC", "DESC", "COUNT(*) AS count"]

theorem tame_of_statementWords {n : Nat} {w : Text}
    (h : (statementWords.contains w && Nat.ble w.length n) = true) : Tame n w := by
  have hall : (statementWords.all fun w => Statement.isTameAscii w.length w) = true := by
    decide +kernel
  rw [Bool.and_eq_true, List.contains_iff_mem, Nat.ble_eq] at h
  exact (Statement.tame_of_isTameAscii (List.all_eq_true.1 hall w h.1)).mono h.2

/-! ## Numbers and days -/

theorem tame_of_digits {n : Nat} {t : Text} (h : ∀ c ∈ t, c.isDigit = true) (hn : t.length ≤ n) :
    Tame n t := by
  have hascii : ∀ c ∈ t, c.toNat < 0x80 := by
    intro c hc
    have hle := (isDigit_iff.1 (h c hc)).2
    omega
  refine ⟨fun c hc => Statement.folds_of_ascii (hascii c hc), fun hc => ?_,
    Statement.harmless_of_breaks fun c hc => Statement.isBreak_of_isDigit (h c hc), ?_⟩
  · exact absurd (h _ hc) (by decide)
  · rw [Text.utf8Size_of_isAscii (List.all_eq_true.2 fun c hc => decide_eq_true (hascii c hc))]
    exact hn

theorem length_ofNat_le {n e : Nat} (he : 0 < e) (h : n < 10 ^ e) : (Text.ofNat n).length ≤ e :=
  (Nat.length_toDigits_le_iff (by decide) he).2 h

theorem tame_ofNat {n e : Nat} (he : 0 < e) (h : n < 10 ^ e) : Tame e (Text.ofNat n) :=
  tame_of_digits (fun _ hc => isDigit_of_mem_ofNat hc) (length_ofNat_le he h)

theorem length_padLeft_le {w n : Nat} (hw : 0 < w) (h : n < 10 ^ w) :
    (Text.padLeft w (Text.ofNat n)).length ≤ w := by
  have hlength := length_ofNat_le hw h
  rw [Text.padLeft, List.length_append, List.length_replicate]
  omega

theorem padLeft_ne_nil (w n : Nat) : Text.padLeft w (Text.ofNat n) ≠ [] :=
  List.append_ne_nil_of_right_ne_nil _ (ofNat_ne_nil n)

/-- Digits with a dash behind them are tame in front of what a break begins. -/
theorem tame_dashed {m n : Nat} {a b : Text} (ha : ∀ c ∈ a, c.isDigit = true) (hne : a ≠ [])
    (hm : a.length ≤ m) (hb : Tame n b) (hhead : b.head?.any isBreak = true) :
    Tame (m + 1 + n) (a ++ "-" ++ b) := by
  have hdash : Tame 1 "-" := tame_of_statementWords (by decide)
  have hseam : Seam a "-" :=
    Statement.seam_of_breaks hne fun c hc => Statement.isBreak_of_isDigit (ha c hc)
  exact ((tame_of_digits ha hm).append hdash hseam).append hb (Or.inr hhead)

theorem head_isBreak {a b : Text} (hne : a ≠ []) (h : ∀ c ∈ a, c.isDigit = true) :
    (a ++ b).head?.any isBreak = true := by
  obtain ⟨c, a, rfl⟩ := List.exists_cons_of_ne_nil hne
  exact Statement.isBreak_of_isDigit (h c List.mem_cons_self)

/-- A day of a year of four digits is tame as it is written. -/
theorem Date.tame_text {d : Date} (hyear : 0 ≤ d.year ∧ d.year ≤ 9999) (hmonth : d.month < 100)
    (hday : d.day < 100) : Tame 10 d.text := by
  have hnat : d.year.natAbs < 10 ^ 4 := by omega
  have hsplit : d.text = Text.padLeft 4 (Text.ofNat d.year.natAbs) ++ "-"
      ++ (Text.padLeft 2 (Text.ofNat d.month) ++ "-"
        ++ Text.padLeft 2 (Text.ofNat d.day)) := by
    rw [Date.text, if_neg (by omega), if_neg (by omega)]
    simp only [List.nil_append, List.append_assoc]
  have hinner : Tame (2 + 1 + 2)
      (Text.padLeft 2 (Text.ofNat d.month) ++ "-" ++ Text.padLeft 2 (Text.ofNat d.day)) := by
    refine tame_dashed (isDigit_padLeft 2 _) (padLeft_ne_nil 2 _)
      (length_padLeft_le (by decide) hmonth)
      (tame_of_digits (isDigit_padLeft 2 _) (length_padLeft_le (by decide) hday)) ?_
    rw [← List.append_nil (Text.padLeft 2 (Text.ofNat d.day))]
    exact head_isBreak (padLeft_ne_nil 2 _) (isDigit_padLeft 2 _)
  rw [hsplit]
  refine tame_dashed (isDigit_padLeft 4 _) (padLeft_ne_nil 4 _)
    (length_padLeft_le (by decide) hnat) hinner ?_
  rw [List.append_assoc]
  exact head_isBreak (padLeft_ne_nil 2 _) (isDigit_padLeft 2 _)

/-! ## Conditions -/

theorem tame_quoted {n : Nat} {t : Text} (h : Tame n t) : Tame (1 + n + 1) ("'" ++ t ++ "'") := by
  have hquote : Tame 1 "'" := tame_of_statementWords (by decide)
  have hfront : Seam "'" t := (Statement.seam_separator (a := []) (by decide)).2
  exact (hquote.append h hfront).append hquote (Or.inr (by decide))

/-- The bytes a condition takes that is on a column of `m` bytes, with literals of `n`. -/
theorem Predicate.tame_sql {p : Predicate} {m n : Nat} (hc : Tame m p.column)
    (hl : ∀ l ∈ p.operand.literals, Tame n l.sql) : Tame (m + 2 * n + 14) p.sql := by
  have hspace : Tame 1 " " := tame_of_statementWords (by decide)
  have hbetween : Tame 9 " BETWEEN " := tame_of_statementWords (by decide)
  have hand : Tame 5 " AND " := tame_of_statementWords (by decide)
  obtain ⟨column, op, operand⟩ := p
  cases operand with
  | single l =>
    have hsymbol : Tame 7 op.symbol := by
      cases op <;> exact tame_of_statementWords (by decide)
    have hsql := (hc.separated hspace (by decide) hsymbol).separated hspace (by decide)
      (hl l List.mem_cons_self)
    exact hsql.mono (by omega)
  | range low high =>
    have hlow := hl low List.mem_cons_self
    have hhigh := hl high (List.mem_cons_of_mem _ List.mem_cons_self)
    have hsql := (hc.separated hbetween (by decide) hlow).separated hand (by decide) hhigh
    exact hsql.mono (by omega)

/-! ## Statements of modest parts -/

namespace SelectParts

/-- A few short and tame parts. -/
structure Modest (p : SelectParts) : Prop where
  projection : p.projection.length ≤ 7 ∧ ∀ t ∈ p.projection, Tame 40 t
  table : Tame 12 p.table
  conditions : p.conditions.length ≤ 4 ∧ ∀ t ∈ p.conditions, Tame 64 t
  groupBy : ∀ t, p.groupBy = some t → Tame 12 t
  orderBy : ∀ t, p.orderBy = some t → Tame 20 t
  limit : ∀ n, p.limit = some n → n < 10 ^ 10

variable {p : SelectParts} {n : Nat}

/-- The statement of tame clauses is tame: there are six of them at most. -/
theorem tame_sql (h : ∀ c ∈ p.clauses, Tame n c.body) : Tame (6 * (n + 10)) p.sql := by
  have hspace : Tame 1 [' '] := tame_of_statementWords (by decide)
  have hword : ∀ k : ClauseKind, k ≠ .leading → Tame 8 k.word := by
    intro k hk
    cases k with
    | leading => exact absurd rfl hk
    | _ => exact tame_of_statementWords (by decide)
  have hlength : p.clauses.length ≤ 6 := by
    have hle := p.kinds_sublist.length_le
    rwa [List.length_map] at hle
  have hwritten : ∀ t ∈ p.clauses.map Outline.writeClause, Tame (8 + 1 + n) t := by
    intro t ht
    obtain ⟨c, hc, rfl⟩ := List.mem_map.1 ht
    have hkind := kind_ne_leading hc
    rw [Outline.writeClause_eq hkind, ← List.singleton_append, ← List.append_assoc]
    exact (hword c.kind hkind).separated hspace (by decide) (h c hc)
  rw [sql_eq]
  refine (Tame.join hspace (by decide) hwritten).mono ?_
  rw [List.length_map]
  calc p.clauses.length * (8 + 1 + n + 1) ≤ 6 * (8 + 1 + n + 1) := Nat.mul_le_mul_right _ hlength
    _ = 6 * (n + 10) := by omega

/-- A list of short and tame texts behind another is tame, if there are not too many. -/
theorem tame_list {k m l : Nat} {sep : Text} {ts : List Text} (hs : Tame l sep)
    (hsep : isSeparator sep = true) (hts : ts.length ≤ k) (h : ∀ t ∈ ts, Tame m t)
    (hn : k * (m + l) ≤ n) : Tame n (Text.join sep ts) :=
  (Tame.join hs hsep h).mono ((Nat.mul_le_mul_right _ hts).trans hn)

theorem Modest.tame_clauses (h : p.Modest) : ∀ c ∈ p.clauses, Tame 300 c.body := by
  have hcomma : Tame 2 ", " := tame_of_statementWords (by decide)
  have hand : Tame 5 " AND " := tame_of_statementWords (by decide)
  have hstar : Tame 1 ['*'] := tame_of_statementWords (by decide)
  refine forall_mem_clauses (hstar.mono (by decide)) ?_ (h.table.mono (by decide)) ?_
    (fun g hg => (h.groupBy g hg).mono (by decide)) (fun o ho => (h.orderBy o ho).mono (by decide))
    fun n hn => (tame_ofNat (by decide) (h.limit n hn)).mono (by decide)
  · exact fun _ => tame_list hcomma (by decide) h.projection.1 h.projection.2 (by decide)
  · exact fun _ => tame_list hand (by decide) h.conditions.1 h.conditions.2 (by decide)

/-- **The size of an answer.** A statement of modest parts is accepted. -/
theorem Modest.accepted (h : p.Modest) : Statement.Accepted (Statement.normalize p.sql) := by
  obtain ⟨r, hr⟩ : ∃ r, p.sql = "SELECT " ++ (p.shown ++ (" FROM " ++ r)) := by
    unfold sql
    simp only [List.append_assoc]
    exact ⟨_, rfl⟩
  have htame := tame_sql h.tame_clauses
  rw [hr] at htame ⊢
  refine Statement.accepted_normalize htame (fun hnil => ?_) (by decide)
  have hletter : 'F' ∈ p.shown ++ (" FROM ".toList ++ r) :=
    List.mem_append_right _ (List.mem_append_left _ (by decide))
  exact absurd (Text.words_eq_nil_iff.1 hnil 'F' hletter) (by decide)

end SelectParts

end SqlScribe
