import SqlScribe.Proofs.Clause.Reading

/-!
# Cutting a text into clauses

A text is cut by a loop that walks over its positions and keeps the place where the clause being
read begins. The loop stays within the text: it looks at no character and takes no part outside
of it, ends, and cuts what `clausesOf` cuts. Nothing but layout and case is lost. Main statements:

* `Cutter.step?_pass`, `Cutter.step?_open`: what one round of the loop does;
* `Cutter.run?_between`: from any place the loop cuts the rest of the text;
* `Outline.ink_render_scan`: an outline holds the ink of its statement.
-/

namespace SqlScribe

/-- The part of a text from one position up to another, `none` where they do not lie in the text
in this order. -/
def Text.slice? (t : Text) (start stop : Nat) : Option Text :=
  if start ≤ stop ∧ stop ≤ t.length then some ((t.take stop).drop start) else none

/-- The character in front of a position, if there is one; `none` where it would be looked for
outside of the text. -/
def Text.before? (t : Text) (p : Nat) : Option (Option Char) :=
  if p = 0 then some none else (t[p - 1]?).map some

/-- Where the loop is: its position, where the body being read begins, which clause this is of,
how deep the position lies, and the clauses behind it. -/
structure Cutter where
  position : Nat
  pivot : Nat
  kind : ClauseKind
  nesting : Nesting
  clauses : List Clause

namespace Cutter

def start : Cutter := ⟨0, 0, .leading, .top, []⟩

/-- The clause that a body makes. There is no leading clause without a body. -/
def closed (kind : ClauseKind) (body : Text) : List Clause :=
  if kind = .leading ∧ Text.trim body = [] then [] else [⟨kind, Text.trim body⟩]

/-- The clauses with the one that ends at the position. -/
def push? (t : Text) (r : Cutter) : Option (List Clause) :=
  (t.slice? r.pivot (min r.position t.length)).map fun body => r.clauses ++ closed r.kind body

/-- One round of the loop: past a keyword that opens a clause, or one character on. `none` where a
character or a part is looked for outside of the text. -/
def step? (t : Text) (r : Cutter) : Option Cutter := do
  let c ← t[r.position]?
  let before ← t.before? r.position
  let next := r.nesting.read c
  match if next.isTop && r.nesting.closing.isNone
      then Outline.opens? r.kind before (t.drop r.position) else none with
  | some (kind, length) =>
      let clauses ← r.push? t
      some ⟨r.position + length, r.position + length, kind, next, clauses⟩
  | none => some { r with position := r.position + 1, nesting := next }

/-- The clauses at the end of the loop, `none` when it does not end within so many rounds. -/
def run? (t : Text) (rounds : Nat) (r : Cutter) : Option (List Clause) :=
  if t.length ≤ r.position then r.push? t
  else
    match rounds with
    | 0 => none
    | rounds + 1 => (r.step? t).bind (run? t rounds)

/-! ## One round -/

section

variable (a b : Text) (kind : ClauseKind) (n : Nesting) (cs : List Clause)

/-- The loop between a body `b` that it has read and the rest of the text. -/
def between : Cutter := ⟨a.length + b.length, a.length, kind, n, cs⟩

theorem push?_between (v : Text) :
    (between a b kind n cs).push? (a ++ (b ++ v)) = some (cs ++ closed kind b) := by
  have hmin : min (a.length + b.length) (a ++ (b ++ v)).length = a.length + b.length := by
    simp only [List.length_append]
    omega
  have hslice : Text.slice? (a ++ (b ++ v)) a.length (a.length + b.length) = some b := by
    rw [Text.slice?, if_pos ⟨Nat.le_add_right _ _, by simp only [List.length_append]; omega⟩,
      ← List.append_assoc, List.take_left' List.length_append, List.drop_left]
  rw [push?, between, hmin, hslice]
  rfl

theorem before?_between (v : Text) :
    Text.before? (a ++ (b ++ v)) (a.length + b.length) = some (Outline.lastOf none (a ++ b)) := by
  rw [Text.before?, ← List.length_append, ← List.append_assoc, Outline.lastOf, Option.or_none]
  rcases List.eq_nil_or_concat (a ++ b) with h | ⟨u, c, h⟩
  · rw [h]
    rfl
  · rw [h, List.concat_eq_append, if_neg (by simp), List.getLast?_concat]
    simp

theorem getElem?_between (c : Char) (v : Text) :
    (a ++ (b ++ c :: v))[a.length + b.length]? = some c := by
  rw [← List.append_assoc, ← List.length_append, List.getElem?_append_right (Nat.le_refl _)]
  simp

theorem drop_between (v : Text) : (a ++ (b ++ v)).drop (a.length + b.length) = v := by
  rw [← List.append_assoc, ← List.length_append, List.drop_left]

/-- Where no clause opens the loop goes on behind the character. -/
theorem step?_pass {c : Char} {v : Text}
    (h : (n.read c).isTop = true → n.closing = none →
      Outline.opens? kind (Outline.lastOf none (a ++ b)) (c :: v) = none) :
    (between a b kind n cs).step? (a ++ (b ++ c :: v)) =
      some (between a (b ++ [c]) kind (n.read c) cs) := by
  have hnone : (if (n.read c).isTop && n.closing.isNone
      then Outline.opens? kind (Outline.lastOf none (a ++ b)) (c :: v) else none) = none := by
    split
    · next hif =>
      rw [Bool.and_eq_true, Option.isNone_iff_eq_none] at hif
      exact h hif.1 hif.2
    · rfl
  rw [step?, between]
  simp only [getElem?_between, before?_between, drop_between, Option.bind_eq_bind, Option.bind_some,
    hnone, between, List.length_append, List.length_singleton, Nat.add_assoc]

/-- Where a clause opens the body is cut off, and the loop goes on behind the keyword. -/
theorem step?_open {c : Char} {w v : Text} {opened : ClauseKind}
    (htop : (n.read c).isTop = true) (hclosing : n.closing = none)
    (h : Outline.opens? kind (Outline.lastOf none (a ++ b)) (c :: w ++ v) =
      some (opened, (c :: w).length)) :
    (between a b kind n cs).step? (a ++ (b ++ (c :: w ++ v))) =
      some (between (a ++ (b ++ c :: w)) [] opened (n.read c) (cs ++ closed kind b)) := by
  have hsome : (if (n.read c).isTop && n.closing.isNone
      then Outline.opens? kind (Outline.lastOf none (a ++ b)) (c :: (w ++ v)) else none) =
        some (opened, (c :: w).length) := by
    rw [htop, hclosing, if_pos (by decide)]
    exact h
  have hpush := push?_between a b kind n cs (c :: (w ++ v))
  rw [between] at hpush
  rw [step?, between, List.cons_append]
  simp only [getElem?_between, before?_between, drop_between, Option.bind_eq_bind, Option.bind_some,
    hsome, hpush, between, List.length_append, List.length_nil, Nat.add_zero, Nat.add_assoc]

end

/-! ## A whole run -/

theorem closed_of_ne_leading {kind : ClauseKind} (h : kind ≠ .leading) (body : Text) :
    closed kind body = [⟨kind, Text.trim body⟩] :=
  if_neg fun hleading => h hleading.1

/-- **The rest of a run cuts the rest of the text.** From a place in the text the loop ends within
as many rounds as characters are left, stays within the text, and cuts what is left of it in the
body being read and the clauses behind. -/
theorem run?_between (a b v : Text) (kind : ClauseKind) (n : Nesting) (cs : List Clause)
    {rounds : Nat} (hrounds : v.length ≤ rounds) :
    (between a b kind n cs).run? (a ++ (b ++ v)) rounds =
      some (cs ++ closed kind (b ++ (Outline.split kind n (Outline.lastOf none (a ++ b)) 0 v).1) ++
        (Outline.split kind n (Outline.lastOf none (a ++ b)) 0 v).2) := by
  induction rounds generalizing a b v kind n cs with
  | zero =>
    obtain rfl := List.eq_nil_of_length_eq_zero (Nat.le_zero.1 hrounds)
    rw [run?, if_pos (by simp [between]), push?_between]
    simp [Outline.split]
  | succ rounds ih =>
    cases v with
    | nil =>
      rw [run?, if_pos (by simp [between]), push?_between]
      simp [Outline.split]
    | cons c v =>
      have hmore : ¬ (a ++ (b ++ c :: v)).length ≤ (between a b kind n cs).position := by
        simp only [between, List.length_append, List.length_cons]
        omega
      rw [run?, if_neg hmore]
      by_cases hopens : ∃ opened length, (n.read c).isTop = true ∧ n.closing = none ∧
          Outline.opens? kind (Outline.lastOf none (a ++ b)) (c :: v) = some (opened, length)
      · obtain ⟨opened, length, htop, hclosing, hopens⟩ := hopens
        obtain ⟨hlt, -, w, d, r, hcut, rfl, hne, -⟩ := Outline.exists_of_opens? hopens
        obtain ⟨c', w, rfl⟩ := List.exists_cons_of_ne_nil hne
        obtain ⟨rfl, hv⟩ := List.cons.inj hcut
        rw [show v = w ++ d :: r from hv] at hrounds hopens ⊢
        have hkind : opened ≠ .leading := by
          rintro rfl
          exact absurd hlt (Nat.not_lt_zero _)
        have hlength : (d :: r).length ≤ rounds := by
          simp only [List.length_cons, List.length_append] at hrounds ⊢
          omega
        have hrest := ih (a ++ (b ++ c :: w)) [] (d :: r) opened (n.read c) (cs ++ closed kind b)
          hlength
        have hlast : Outline.lastOf none (a ++ (b ++ c :: w)) = w.getLast?.or (some c) := by
          rw [Outline.lastOf, Option.or_none, ← List.append_assoc,
            List.getLast?_append_of_ne_nil _ (List.cons_ne_nil c w), ← Text.getLast?_cons_or,
            Option.or_none]
        have htext : a ++ (b ++ c :: w) ++ ([] ++ d :: r) = a ++ (b ++ c :: (w ++ d :: r)) := by
          simp only [List.append_assoc, List.cons_append, List.nil_append]
        rw [List.append_nil, hlast, htext, List.nil_append, closed_of_ne_leading hkind] at hrest
        have hstep := step?_open a b kind n cs (v := d :: r) htop hclosing hopens
        rw [List.cons_append] at hstep
        rw [hstep, Option.bind_some, hrest, Outline.split_opening htop hclosing hopens,
          List.length_cons, Nat.add_sub_cancel, Outline.split_skip, List.append_nil,
          List.append_assoc (cs ++ _), List.singleton_append]
      · have hpass : (n.read c).isTop = true → n.closing = none →
            Outline.opens? kind (Outline.lastOf none (a ++ b)) (c :: v) = none := by
          intro htop hclosing
          by_contra hne
          obtain ⟨x, hx⟩ := Option.ne_none_iff_exists'.1 hne
          exact hopens ⟨x.1, x.2, htop, hclosing, hx⟩
        have hrest := ih a (b ++ [c]) v kind (n.read c) cs (Nat.le_of_succ_le_succ hrounds)
        have hlast : Outline.lastOf none (a ++ (b ++ [c])) = some c := by
          rw [Outline.lastOf, Option.or_none, ← List.append_assoc, List.getLast?_concat]
        rw [hlast, List.append_assoc b, List.append_assoc b, List.singleton_append,
          List.singleton_append] at hrest
        rw [step?_pass a b kind n cs hpass, Option.bind_some, Outline.split_cons hpass,
          Outline.putFront, hrest, List.singleton_append]

/-- **The loop cuts a text into its clauses.** It ends within as many rounds as the text has
characters and stays within the text. -/
theorem run?_start (t : Text) : start.run? t t.length = some (Outline.clausesOf t) := by
  have hrun := run?_between [] [] t .leading .top [] (Nat.le_refl _)
  simp only [List.nil_append] at hrun
  refine hrun.trans (congrArg some ?_)
  rw [Outline.clausesOf, closed]
  simp only [true_and, List.isEmpty_iff]
  rw [Outline.lastOf_nil]
  split
  · rfl
  · rfl

end Cutter

namespace Outline

/-- **Scanning loses and invents nothing.** Without regard to layout and case, what is written for
the outline of a statement is the statement, with one `;` behind it if it ended in some; and the
loop that cuts the statement ends and looks at nothing outside of it. -/
theorem ink_render_scan (sql : Text) :
    Text.ink (scan sql).render =
        Text.ink (bodyOf sql) ++ (if Text.endsWith (Text.trim sql) ";" then [';'] else []) ∧
      Cutter.start.run? (bodyOf sql) (bodyOf sql).length = some (scan sql).clauses := by
  rw [scan_clauses]
  refine ⟨?_, Cutter.run?_start (bodyOf sql)⟩
  rw [render_eq, Text.ink_append, ink_written, scan_clauses, ← ink_clausesOf, scan]
  split
  · rfl
  · rfl

end Outline

end SqlScribe
