import SqlScribe.Proofs.Text.Class
import SqlScribe.Proofs.Text.Layout
import SqlScribe.Clause.Scan

/-!
# Where clauses open

A clause opens at a reserved word that stands alone: the longest run of identifier
characters around it is the word itself, in any case. Main statements:

* `reserved_of_opens?`: where a clause opens there is a reserved word;
* `opens?_eq_none_of_run`: an identifier that is not reserved opens none;
* `opens?_word`: the word of a clause that lies ahead opens it.
-/

namespace SqlScribe

/-! ## Characters -/

/-- No blank belongs to an identifier. -/
theorem isIdentifierChar_of_isBlank {c : Char} (h : isBlank c = true) :
    isIdentifierChar c = false := by
  rcases ascii_or_has_of_isBlank h with h | ⟨hcode, h⟩
  · simp only [List.map_cons, List.map_nil, List.mem_cons, List.not_mem_nil, or_false] at h
    rcases h with rfl | rfl | rfl | rfl | rfl | rfl <;> decide
  · have hplain : ∀ d, d.toNat < 0x80 → (c == d) = false := by
      intro d hd
      refine beq_eq_false_iff_ne.2 ?_
      rintro rfl
      omega
    obtain ⟨halpha, hdecimal, hnumber, -⟩ := blankSpans_apart h
    simp only [isIdentifierChar, isAlphanumeric, isAlphabetic, halpha, hdecimal, hnumber,
      isAlpha_eq_false hcode, isDigit_eq_false hcode, hplain '_' (by decide),
      hplain '@' (by decide), hplain '#' (by decide), hplain '$' (by decide), Bool.or_self,
      Bool.and_false]

theorem isBlank_of_isIdentifierChar {c : Char} (h : isIdentifierChar c = true) :
    isBlank c = false := by
  by_contra hb
  have hid := isIdentifierChar_of_isBlank (by simpa using hb)
  exact absurd h (by simp [hid])

/-- An identifier character is no blank, and no sign. -/
theorem ne_sign_of_isIdentifierChar {c d : Char} (h : isIdentifierChar c = true)
    (hd : isIdentifierChar d = false) : isBlank c = false ∧ c ≠ d := by
  refine ⟨isBlank_of_isIdentifierChar h, ?_⟩
  rintro rfl
  exact Bool.false_ne_true (hd.symm.trans h)

theorem isIdentifierChar_of_isAlpha {c : Char} (h : c.isAlpha = true) :
    isIdentifierChar c = true := by
  simp [isIdentifierChar, isAlphanumeric, isAlphabetic_of_isAlpha h]

theorem isIdentifierChar_toUpper (c : Char) : isIdentifierChar c.toUpper = isIdentifierChar c := by
  cases hlower : c.isLower with
  | false => rw [toUpper_of_not_isLower hlower]
  | true =>
    have hupper := isUpper_toUpper_of_isLower hlower
    rw [isIdentifierChar_of_isAlpha (isAlpha_iff.2 (.inr hlower)),
      isIdentifierChar_of_isAlpha (isAlpha_iff.2 (.inl hupper))]

theorem isIdentifierChar_of_isDigit {c : Char} (h : c.isDigit = true) :
    isIdentifierChar c = true := by
  simp [isIdentifierChar, isAlphanumeric, h]

theorem isIdentifierChar_of_isDecimal {c : Char} (h : isDecimal c = true) :
    isIdentifierChar c = true := by
  rw [isDecimal, Bool.or_eq_true, Bool.and_eq_true, Bool.and_eq_true] at h
  rcases h with h | ⟨⟨hcode, h⟩, -⟩
  · exact isIdentifierChar_of_isDigit h
  · simp [isIdentifierChar, isAlphanumeric, hcode, h]

theorem isBlank_of_isDecimal {c : Char} (h : isDecimal c = true) : isBlank c = false :=
  isBlank_of_isIdentifierChar (isIdentifierChar_of_isDecimal h)

theorem isDecimal_of_isBlank {c : Char} (h : isBlank c = true) : isDecimal c = false := by
  by_contra hdecimal
  rw [isBlank_of_isDecimal (by simpa using hdecimal)] at h
  exact Bool.false_ne_true h

/-- An identifier character does not change the nesting. -/
theorem read_of_isIdentifierChar {c : Char} (h : isIdentifierChar c = true) (d : Nat) :
    Nesting.read ⟨d, none⟩ c = ⟨d, none⟩ := by
  have hne : ∀ x, isIdentifierChar x = false → (c == x) = false := by
    intro x hx
    refine beq_eq_false_iff_ne.2 ?_
    rintro rfl
    exact absurd h (by simp [hx])
  rw [Nesting.read]
  simp only [hne '\'' (by decide), hne '"' (by decide), hne '\x60' (by decide),
    hne '[' (by decide), hne '(' (by decide), hne ')' (by decide), Bool.or_self,
    Bool.false_eq_true, if_false]

/-! ## Reserved words -/

/-- The words a clause begins with. -/
def reservedWords : List Text := ["SELECT", "FROM", "WHERE", "GROUP", "HAVING", "ORDER", "LIMIT"]

namespace ClauseKind

/-- The first word of a clause. -/
def head (k : ClauseKind) : Text := k.word.takeWhile (· != ' ')

/-- What stands behind the first word. -/
def tail (k : ClauseKind) : Text := k.word.dropWhile (· != ' ')

theorem word_eq (k : ClauseKind) : k.word = k.head ++ k.tail :=
  List.takeWhile_append_dropWhile.symm

theorem keyword_word (k : ClauseKind) : k.keyword.word = k.word := by
  cases k <;> decide

theorem ne_leading_of_mem_openable {k : ClauseKind} (h : k ∈ openable) : k ≠ leading := by
  rintro rfl
  exact absurd h (by decide)

theorem mem_openable {k : ClauseKind} (h : k ≠ leading) : k ∈ openable := by
  cases k with
  | leading => exact absurd rfl h
  | _ => decide

/-- The word of a clause begins with a letter. -/
theorem word_cons (k : ClauseKind) (h : k.rank ≠ 0) :
    ∃ c w, k.word = c :: w ∧ isIdentifierChar c = true := by
  cases k with
  | leading => exact absurd rfl h
  | _ => exact ⟨_, _, rfl, by decide⟩

theorem head_mem_reservedWords {k : ClauseKind} (h : k ≠ leading) : k.head ∈ reservedWords := by
  cases k with
  | leading => exact absurd rfl h
  | _ => decide

theorem head_inj {k l : ClauseKind} (h : k.head = l.head) : k = l := by
  revert h
  cases k <;> cases l <;> decide

theorem isUpper_of_mem_head (k : ClauseKind) : ∀ c ∈ k.head, c.isUpper = true := by
  rw [← List.all_eq_true]
  cases k <;> decide

theorem tail_head (k : ClauseKind) : ∀ c, k.tail.head? = some c → c = ' ' := by
  intro c hc
  have hn := List.head?_dropWhile_not (· != ' ') k.word
  rw [tail] at hc
  rw [hc] at hn
  simpa using hn

theorem isIdentifierChar_of_accepts {k : ClauseKind} {c : Char} (h : k.keyword.accepts c = true) :
    isIdentifierChar c = false := by
  rw [Keyword.accepts, Bool.or_eq_true, Bool.and_eq_true] at h
  rcases h with h | h
  · exact isIdentifierChar_of_isBlank h.2
  · have hmem : c ∈ ['*', '('] := by
      cases k <;> simp [keyword, Keyword.ofWord] at h <;> simp [h]
    simp only [List.mem_cons, List.not_mem_nil, or_false] at hmem
    rcases hmem with rfl | rfl <;> decide

end ClauseKind

/-! ## Runs of identifier characters -/

namespace Text

/-- No identifier runs from `a` into `b`. -/
def Apart (a b : Text) : Prop :=
  ∀ c d, a.getLast? = some c → b.head? = some d → isIdentifierChar c = true →
    isIdentifierChar d = false

theorem Apart.nil (a : Text) : Apart a [] :=
  fun _ _ _ hd => absurd hd (by simp)

/-- Behind a sign an identifier starts afresh. -/
theorem Apart.of_last {a b : Text} (h : ∀ c, a.getLast? = some c → isIdentifierChar c = false) :
    Apart a b := by
  intro c d hc _ hid
  exact absurd hid (by simp [h c hc])

/-- In front of a sign an identifier is over. -/
theorem Apart.of_head {a b : Text} (h : ∀ d, b.head? = some d → isIdentifierChar d = false) :
    Apart a b :=
  fun _ d _ hd _ => h d hd

theorem Apart.append_right {a b : Text} (h : Apart a b) (hb : b ≠ []) (r : Text) :
    Apart a (b ++ r) := by
  obtain ⟨x, b, rfl⟩ := List.exists_cons_of_ne_nil hb
  intro c d hc hd hid
  exact h c d hc hd hid

theorem Apart.of_append_left {a b r : Text} (h : Apart (a ++ b) r) (hb : b ≠ []) :
    Apart b r := by
  intro c d hc hd hid
  refine h c d ?_ hd hid
  rw [List.getLast?_append_of_ne_nil a hb, hc]

/-- Two runs of identifier characters at the start of a text are the same. -/
theorem run_unique {w u rest v : Text} (hw : ∀ c ∈ w, isIdentifierChar c = true)
    (hu : ∀ c ∈ u, isIdentifierChar c = true)
    (hrest : ∀ c, rest.head? = some c → isIdentifierChar c = false)
    (hv : ∀ c, v.head? = some c → isIdentifierChar c = false) (h : w ++ rest = u ++ v) : w = u := by
  induction w generalizing u with
  | nil =>
    cases u with
    | nil => rfl
    | cons d u =>
      rw [List.nil_append] at h
      have hd := hrest d (by rw [h]; rfl)
      exact absurd (hu d List.mem_cons_self) (by simp [hd])
  | cons c w ih =>
    cases u with
    | nil =>
      rw [List.nil_append] at h
      have hc := hv c (by rw [← h]; rfl)
      exact absurd (hw c List.mem_cons_self) (by simp [hc])
    | cons d u =>
      rw [List.cons_append, List.cons_append, List.cons.injEq] at h
      rw [h.1, ih (fun x hx => hw x (List.mem_cons_of_mem _ hx))
        (fun x hx => hu x (List.mem_cons_of_mem _ hx)) h.2]

end Text

/-! ## Keywords -/

namespace Keyword

/-- A word without spaces is found where a text begins with it, in any case. -/
theorem after?_append {w tl t r : Text} (hw : ∀ e ∈ w, e ≠ ' ')
    (h : after? (w ++ tl) t = some r) :
    ∃ u v, t = u ++ v ∧ u.asciiUpper = w ∧ after? tl v = some r := by
  induction w generalizing t with
  | nil => exact ⟨[], t, rfl, rfl, h⟩
  | cons e w ih =>
    cases t with
    | nil => exact absurd h (by simp [after?])
    | cons c t =>
      have he : (e == ' ') = false := beq_eq_false_iff_ne.2 (hw e List.mem_cons_self)
      rw [List.cons_append, after?, he, if_neg Bool.false_ne_true] at h
      split at h
      · next hc =>
        obtain ⟨u, v, rfl, rfl, hr⟩ := ih (fun x hx => hw x (List.mem_cons_of_mem _ hx)) h
        have hec : e = c.toUpper := by simpa using hc
        exact ⟨c :: u, v, rfl, by rw [hec]; rfl, hr⟩
      · exact absurd h (by simp)

/-- A word without spaces is taken where it is spelled, in any case. -/
theorem after?_append_spelled {w tl u r : Text} (hw : ∀ e ∈ w, e ≠ ' ') (h : u.asciiUpper = w) :
    after? (w ++ tl) (u ++ r) = after? tl r := by
  induction u generalizing w with
  | nil =>
    subst h
    rfl
  | cons c u ih =>
    obtain ⟨e, w, rfl⟩ : ∃ e v, w = e :: v := ⟨_, _, h.symm⟩
    obtain ⟨hletter, hrest⟩ := List.cons.inj h
    obtain ⟨he, hw⟩ := List.forall_mem_cons.1 hw
    rw [List.cons_append, List.cons_append, after?, if_neg (by simp [he]),
      if_pos (by simp [hletter])]
    exact ih hw hrest

/-- What remains behind a word without spaces. -/
theorem after?_eq_some_iff {w t r : Text} (hw : ∀ e ∈ w, e ≠ ' ') :
    after? w t = some r ↔ ∃ u, t = u ++ r ∧ u.asciiUpper = w := by
  rw [← List.append_nil w]
  constructor
  · intro h
    obtain ⟨u, v, rfl, hu, hv⟩ := after?_append hw h
    exact ⟨u, by rw [Option.some.inj hv], by rw [hu, List.append_nil]⟩
  · rintro ⟨u, rfl, hu⟩
    exact after?_append_spelled hw (by rw [hu, List.append_nil])

/-- Behind a space in a word stands a blank. -/
theorem head_of_after? {tl v r : Text} (htl : ∀ c, tl.head? = some c → c = ' ')
    (h : after? tl v = some r) : v = r ∨ ∃ d w, v = d :: w ∧ isBlank d = true := by
  cases tl with
  | nil => exact Or.inl (Option.some.inj h)
  | cons e tl =>
    obtain rfl := htl e rfl
    cases v with
    | nil => exact absurd h (by simp [after?])
    | cons d w =>
      rw [after?, if_pos (by decide)] at h
      split at h
      · next hd => exact Or.inr ⟨d, w, rfl, hd⟩
      · exact absurd h (by simp)

end Keyword

/-- Where only one element finds something, a search finds what it finds. -/
theorem findSome?_eq_of_unique {α β : Type} {f : α → Option β} {l : List α} {a : α} (ha : a ∈ l)
    (h : ∀ b ∈ l, b ≠ a → f b = none) : l.findSome? f = f a := by
  induction l with
  | nil => exact absurd ha List.not_mem_nil
  | cons b l ih =>
    rw [List.findSome?_cons]
    by_cases hb : b = a
    · subst hb
      cases hf : f b with
      | some x => rfl
      | none =>
        refine List.findSome?_eq_none_iff.2 fun x hx => ?_
        by_cases hxb : x = b
        · rw [hxb, hf]
        · exact h x (List.mem_cons_of_mem _ hx) hxb
    · rw [h b List.mem_cons_self hb]
      refine ih ?_ fun x hx => h x (List.mem_cons_of_mem _ hx)
      exact (List.mem_cons.1 ha).resolve_left (Ne.symm hb)

namespace ClauseKind

/-- The keyword of a clause is the first word of the clause, standing alone. -/
theorem head_of_length? {k : ClauseKind} {before : Option Char} {t : Text} {n : Nat}
    (h : k.keyword.length? before t = some n) :
    Keyword.mayStartAfter before = true ∧
      ∃ (u : Text) (d : Char) (v : Text), t = u ++ d :: v ∧ u.asciiUpper = k.head ∧
        isIdentifierChar d = false := by
  rw [Keyword.length?] at h
  split at h
  · next hstart =>
    refine ⟨hstart, ?_⟩
    split at h
    · next c r hafter =>
      split at h
      · next hacc =>
        rw [keyword_word, word_eq] at hafter
        have hns : ∀ e ∈ k.head, e ≠ ' ' := by
          rintro e he rfl
          exact absurd (isUpper_of_mem_head k _ he) (by decide)
        obtain ⟨u, v, rfl, hu, hv⟩ := Keyword.after?_append hns hafter
        rcases Keyword.head_of_after? k.tail_head hv with rfl | ⟨d, w, rfl, hd⟩
        · exact ⟨u, c, r, rfl, hu, isIdentifierChar_of_accepts hacc⟩
        · exact ⟨u, d, w, rfl, hu, isIdentifierChar_of_isBlank hd⟩
      · exact absurd h (by simp)
    · exact absurd h (by simp)
  · exact absurd h (by simp)

theorem asciiUpper_head (k : ClauseKind) : k.head.asciiUpper = k.head := by
  cases k <;> decide

theorem isIdentifierChar_of_mem_head {k : ClauseKind} {c : Char} (h : c ∈ k.head) :
    isIdentifierChar c = true := by
  exact isIdentifierChar_of_isAlpha (isAlpha_iff.2 (Or.inl (isUpper_of_mem_head k c h)))

/-- What spells the first word of a clause in some case is an identifier. -/
theorem isIdentifierChar_of_asciiUpper {k : ClauseKind} {u : Text} (h : u.asciiUpper = k.head) :
    ∀ c ∈ u, isIdentifierChar c = true := by
  intro c hc
  have hmem : c.toUpper ∈ k.head := h ▸ List.mem_map_of_mem hc
  exact isIdentifierChar_of_isAlpha (isAlpha_of_isUpper_toUpper (isUpper_of_mem_head k _ hmem))

theorem after?_word (k : ClauseKind) (rest : Text) :
    Keyword.after? k.keyword.word (k.word ++ ' ' :: rest) = some (' ' :: rest) := by
  cases k <;> rfl

/-- The keyword of a clause is found where its word stands with a space behind it. -/
theorem length?_word (k : ClauseKind) {before : Option Char}
    (h : Keyword.mayStartAfter before = true) (rest : Text) :
    k.keyword.length? before (k.word ++ ' ' :: rest) = some k.word.length := by
  have hacc : k.keyword.accepts ' ' = true := by cases k <;> decide
  rw [Keyword.length?, if_pos h, after?_word]
  simp only [hacc, if_true, List.length_append, Nat.add_sub_cancel]

/-- The keyword of no other clause is found there. -/
theorem length?_word_of_ne {k l : ClauseKind} (hne : l ≠ k) (before : Option Char) (rest : Text) :
    l.keyword.length? before (k.word ++ ' ' :: rest) = none := by
  refine Option.eq_none_iff_forall_ne_some.2 fun n hn => ?_
  obtain ⟨-, u, d, v, ht, hu, hd⟩ := head_of_length? hn
  rw [word_eq, List.append_assoc] at ht
  have hid := isIdentifierChar_of_asciiUpper hu
  have hstop : ∀ c, (k.tail ++ ' ' :: rest).head? = some c → isIdentifierChar c = false := by
    intro c hc
    have hsp : c = ' ' := by
      cases htail : k.tail with
      | nil =>
        rw [htail] at hc
        exact (Option.some.inj hc).symm
      | cons x xs =>
        rw [htail] at hc
        exact tail_head k c (by rw [htail]; exact hc)
    rw [hsp]
    decide
  have hv : ∀ c, (d :: v).head? = some c → isIdentifierChar c = false := by
    intro c hc
    rw [← Option.some.inj hc, hd]
  have hrun : k.head = u :=
    Text.run_unique (fun c hc => isIdentifierChar_of_mem_head hc) hid hstop hv ht
  rw [← hrun, asciiUpper_head] at hu
  exact hne (head_inj hu).symm

end ClauseKind

/-! ## Opening a clause -/

namespace Outline

/-- A clause opens at a reserved word, in any case, with no identifier character around. -/
theorem reserved_of_opens? {k : ClauseKind} {before : Option Char} {t : Text}
    {x : ClauseKind × Nat} (h : opens? k before t = some x) :
    Keyword.mayStartAfter before = true ∧
      ∃ (u : Text) (d : Char) (v : Text), t = u ++ d :: v ∧ u ≠ [] ∧
        (∀ c ∈ u, isIdentifierChar c = true) ∧ isIdentifierChar d = false ∧
        u.asciiUpper ∈ reservedWords := by
  rw [opens?] at h
  obtain ⟨kind, hkind, h⟩ := List.exists_of_findSome?_eq_some h
  have hne := ClauseKind.ne_leading_of_mem_openable hkind
  split at h
  · obtain ⟨n, hn, -⟩ := Option.map_eq_some_iff.1 h
    obtain ⟨hstart, u, d, v, rfl, hu, hd⟩ := ClauseKind.head_of_length? hn
    have hupper := ClauseKind.isIdentifierChar_of_asciiUpper hu
    refine ⟨hstart, u, d, v, rfl, ?_, hupper, hd, hu ▸ ClauseKind.head_mem_reservedWords hne⟩
    rintro rfl
    have hnil : ([] : Text) ∈ reservedWords := by
      rw [show ([] : Text) = kind.head from hu]
      exact ClauseKind.head_mem_reservedWords hne
    exact absurd hnil (by decide)
  · exact absurd h (by simp)

/-- No clause opens inside an identifier. -/
theorem opens?_eq_none_of_before {k : ClauseKind} {before : Option Char} (t : Text)
    (h : Keyword.mayStartAfter before = false) : opens? k before t = none := by
  refine Option.eq_none_iff_forall_ne_some.2 fun x hx => ?_
  exact absurd (reserved_of_opens? hx).1 (by simp [h])

/-- No clause opens at a sign. -/
theorem opens?_eq_none_of_sign {k : ClauseKind} {before : Option Char} {c : Char} (t : Text)
    (h : isIdentifierChar c = false) : opens? k before (c :: t) = none := by
  refine Option.eq_none_iff_forall_ne_some.2 fun x hx => ?_
  obtain ⟨-, u, d, v, ht, hne, hu, -⟩ := reserved_of_opens? hx
  obtain ⟨y, u, rfl⟩ := List.exists_cons_of_ne_nil hne
  rw [List.cons_append, List.cons.injEq] at ht
  exact absurd (hu y List.mem_cons_self) (by rw [← ht.1, h]; simp)

/-- No clause opens at an identifier that is not reserved. -/
theorem opens?_eq_none_of_run {k : ClauseKind} {before : Option Char} {w rest : Text}
    (hne : w ≠ []) (hw : ∀ c ∈ w, isIdentifierChar c = true) (hres : w.asciiUpper ∉ reservedWords)
    (hrest : Text.Apart w rest) : opens? k before (w ++ rest) = none := by
  refine Option.eq_none_iff_forall_ne_some.2 fun x hx => ?_
  obtain ⟨-, u, d, v, ht, -, hu, hd, hmem⟩ := reserved_of_opens? hx
  have hlast := hw _ (List.getLast_mem hne)
  have hstop : ∀ c, rest.head? = some c → isIdentifierChar c = false :=
    fun c hc => hrest _ c (List.getLast?_eq_some_getLast hne) hc hlast
  have hv : ∀ c, (d :: v).head? = some c → isIdentifierChar c = false := by
    intro c hc
    rw [← Option.some.inj hc, hd]
  exact hres (Text.run_unique hw hu hstop hv ht ▸ hmem)

/-- The word of a clause that lies ahead opens this clause. -/
theorem opens?_word {k kind : ClauseKind} (h : k.rank < kind.rank) {before : Option Char}
    (hbefore : Keyword.mayStartAfter before = true) (rest : Text) :
    opens? k before (kind.word ++ ' ' :: rest) = some (kind, kind.word.length) := by
  have hkind : kind ∈ ClauseKind.openable := by
    refine ClauseKind.mem_openable ?_
    rintro rfl
    exact absurd h (Nat.not_lt_zero _)
  have hother : ∀ l ∈ ClauseKind.openable, l ≠ kind → (if k.rank < l.rank then
      (l.keyword.length? before (kind.word ++ ' ' :: rest)).map fun n => (l, n) else none)
      = none := by
    intro l _ hl
    rw [ClauseKind.length?_word_of_ne hl]
    exact ite_self none
  rw [opens?, findSome?_eq_of_unique hkind hother, if_pos h,
    ClauseKind.length?_word kind hbefore]
  rfl

end Outline

end SqlScribe
