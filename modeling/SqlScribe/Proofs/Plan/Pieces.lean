import SqlScribe.Proofs.Clause.RoundTrip
import SqlScribe.Proofs.Plan.Check

/-!
# The pieces of a statement

What a plan writes into its statement is solid, piece by piece: plain names, numbers,
literals without quotes, conditions, orders and figures. With names that may be reserved words it is
still compact. Main statements:

* `solid_of_isPlainName`, `compact_of_isIdentifier`: a name that needs no quotes, or may need them;
* `Literal.solid_collapse`: a literal, whatever else its text holds;
* `Predicate.solid_collapse`, `solid_collapse_conjunction`: conditions;
* `Order.solid_sql`, `AggregateCall.solid_ofColumn`: orders and figures;
* `Order.compact_sql`, `AggregateCall.compact_ofColumn`: the same with any identifiers.
-/

namespace SqlScribe

open Outline (Compact Inert Solid Separates)

/-! ## Names -/

/-- A name that can be written without quotes: it is made of identifier characters and no
reserved word, in any case. -/
def isPlainName (name : Text) : Bool :=
  !name.isEmpty && name.all isIdentifierChar && !reservedWords.contains name.asciiUpper

/-- A name that is made of identifier characters. -/
def isIdentifier (name : Text) : Bool := !name.isEmpty && name.all isIdentifierChar

/-- Whether the names of the table and its columns are all of a kind. -/
def Table.namesAll (good : Text → Bool) (t : Table) : Bool :=
  good t.name && t.columns.all fun c => good c.name

/-- Whether the names of all tables and columns are of a kind. -/
def Schema.namesAll (good : Text → Bool) (s : Schema) : Bool := s.tables.all (Table.namesAll good)

/-- Whether all tables and columns have plain names. -/
def Schema.namesPlain (s : Schema) : Bool := s.namesAll isPlainName

/-- Whether all tables and columns have names of identifier characters. -/
def Schema.namesSpelled (s : Schema) : Bool := s.namesAll isIdentifier

theorem isIdentifierChar_of_isIdentifier {name : Text} (h : isIdentifier name = true) :
    ∀ c ∈ name, isIdentifierChar c = true := by
  rw [isIdentifier, Bool.and_eq_true, List.all_eq_true] at h
  exact h.2

theorem compact_of_isIdentifier {name : Text} (h : isIdentifier name = true) : Compact name := by
  have hid := isIdentifierChar_of_isIdentifier h
  rw [isIdentifier, Bool.and_eq_true] at h
  refine Outline.compact_of_chars (by simpa using h.1) fun c hc => ?_
  exact ne_sign_of_isIdentifierChar (hid c hc) (by decide)

theorem isIdentifierChar_of_isPlainName {name : Text} (h : isPlainName name = true) :
    ∀ c ∈ name, isIdentifierChar c = true := by
  simp only [isPlainName, Bool.and_eq_true, List.all_eq_true] at h
  exact h.1.2

theorem solid_of_isPlainName {name : Text} (h : isPlainName name = true) : Solid name := by
  simp only [isPlainName, Bool.and_eq_true, Bool.not_eq_true', List.all_eq_true] at h
  obtain ⟨⟨hne, hid⟩, hres⟩ := h
  refine Outline.solid_run (by simpa using hne) hid fun hmem => ?_
  rw [List.contains_iff_mem.2 hmem] at hres
  exact absurd hres (by simp)

section Names

variable {good : Text → Bool}

theorem Table.good_of_hasColumn {t : Table} (ht : t.namesAll good = true) {name : Text}
    (h : t.hasColumn name = true) : good name = true := by
  rw [namesAll, Bool.and_eq_true, List.all_eq_true] at ht
  obtain ⟨c, hc⟩ := Option.isSome_iff_exists.1 h
  have hname : c.name = name := by simpa using List.find?_some hc
  exact hname ▸ ht.2 c (List.mem_of_find?_eq_some hc)

theorem Schema.namesAll_of_table? {s : Schema} (hs : s.namesAll good = true) {name : Text}
    {t : Table} (h : s.table? name = some t) : t.namesAll good = true ∧ t.name = name := by
  rw [namesAll, List.all_eq_true] at hs
  exact ⟨hs t (List.mem_of_find?_eq_some h), name_of_table? h⟩

end Names

/-! ## Words and numbers -/

/-- A word with an underscore is no reserved word. -/
theorem asciiUpper_not_mem_of_underscore {w : Text} (h : '_' ∈ w) :
    w.asciiUpper ∉ reservedWords := by
  intro hmem
  have hall : (reservedWords.all fun r => !r.contains '_') = true := by decide
  have hr := List.all_eq_true.1 hall _ hmem
  have hup : '_' ∈ w.asciiUpper := List.mem_map_of_mem (f := Char.toUpper) h
  rw [List.contains_iff_mem.2 hup] at hr
  exact absurd hr (by decide)

theorem isDigit_of_mem_ofNat {n : Nat} {c : Char} (h : c ∈ Text.ofNat n) : c.isDigit = true :=
  Nat.isDigit_of_mem_toDigits (by decide) (by decide) h

theorem ofNat_ne_nil (n : Nat) : Text.ofNat n ≠ [] := Nat.toDigits_ne_nil

/-- Digits are solid. -/
theorem solid_ofNat (n : Nat) : Solid (Text.ofNat n) := by
  refine Outline.solid_run (ofNat_ne_nil n)
    (fun c hc => isIdentifierChar_of_isDigit (isDigit_of_mem_ofNat hc)) fun hmem => ?_
  have hall : (reservedWords.all fun r => r.any fun c => !c.isDigit) = true := by decide
  have hr := List.all_eq_true.1 hall _ hmem
  obtain ⟨d, hd, hnd⟩ := List.any_eq_true.1 hr
  obtain ⟨c, hc, rfl⟩ := List.mem_map.1 hd
  have hdigit := isDigit_of_mem_ofNat hc
  rw [toUpper_of_isDigit hdigit, hdigit] at hnd
  exact absurd hnd (by decide)

/-- A whole number is solid. -/
theorem solid_ofInt (n : Int) : Solid (Text.ofInt n) := by
  have hnat := solid_ofNat n.natAbs
  rw [Text.ofInt]
  split
  · have hminus : Inert ['-'] := Outline.inert_sign (by decide) rfl
    have hap : Text.Apart ['-'] (Text.ofNat n.natAbs) :=
      .of_last fun c hc => by rw [← Option.some.inj hc]; decide
    refine Outline.solid_of_isWord ⟨List.cons_ne_nil _ _, fun c hc => ?_⟩
      (hminus.append hnat.inert hap) ?_
    · rcases List.mem_cons.1 hc with rfl | hc
      · decide
      · exact isBlank_of_isIdentifierChar
          (isIdentifierChar_of_isDigit (isDigit_of_mem_ofNat hc))
    · simpa using hnat.no_semicolon
  · exact hnat

/-! ## Literals and conditions -/

/-- A quoted text without quotes and semicolons is solid when it is collapsed. -/
theorem solid_quoted {t : Text} (hq : '\'' ∉ t) (hs : ';' ∉ t) :
    Solid (Text.collapse ("'" ++ t ++ "'")) := by
  obtain ⟨u, hu, hmem⟩ := Text.collapse_quotation (q := '\'') (by decide) t
  have hinner : ∀ x, x ≠ ' ' → x ∉ t → x ∉ u := by
    intro x hsp hx hxu
    exact (hmem x hxu).elim hsp hx
  have hcollapse : Text.collapse ("'" ++ t ++ "'") = '\'' :: (u ++ ['\'']) := hu
  refine ⟨?_, Text.singleSpaced_collapse _, ?_⟩
  · rw [hcollapse]
    exact Outline.inert_quoted (hinner _ (by decide) hq)
  · rw [hcollapse]
    simp [hinner ';' (by decide) hs]

theorem isDigit_padLeft (w n : Nat) :
    ∀ c ∈ Text.padLeft w (Text.ofNat n), c.isDigit = true := by
  intro c hc
  rcases List.mem_append.1 hc with hc | hc
  · rw [List.eq_of_mem_replicate hc]
    decide
  · exact isDigit_of_mem_ofNat hc

/-- A date is written with digits and signs. -/
theorem Date.mem_text {d : Date} {c : Char} (h : c ∈ d.text) :
    c.isDigit = true ∨ c = '-' ∨ c = '+' := by
  have hsign : c ∈ (if d.year < 0 then ("-" : Text) else if 9999 < d.year then "+" else []) →
      c = '-' ∨ c = '+' := by
    intro hc
    split at hc
    · exact Or.inl (List.mem_singleton.1 hc)
    · split at hc
      · exact Or.inr (List.mem_singleton.1 hc)
      · exact absurd hc List.not_mem_nil
  rw [Date.text] at h
  simp only [List.mem_append] at h
  rcases h with ((((h | h) | h) | h) | h) | h
  · exact Or.inr (hsign h)
  · exact Or.inl (isDigit_padLeft _ _ c h)
  · exact Or.inr (Or.inl (List.mem_singleton.1 h))
  · exact Or.inl (isDigit_padLeft _ _ c h)
  · exact Or.inr (Or.inl (List.mem_singleton.1 h))
  · exact Or.inl (isDigit_padLeft _ _ c h)

/-- A safe literal, as it is written and collapsed, is solid. -/
theorem Literal.solid_collapse {l : Literal} (h : l.Safe) : Solid (Text.collapse l.sql) := by
  cases l with
  | integer n =>
    have hn := solid_ofInt n
    rw [Literal.sql, hn.collapse_eq]
    exact hn
  | date d =>
    have hout : ∀ x : Char, x.isDigit = false → x ≠ '-' → x ≠ '+' → x ∉ d.text := by
      intro x hx hm hp hmem
      rcases Date.mem_text hmem with hd | hd
      · exact absurd hd (by simp [hx])
      · exact hd.elim hm hp
    exact solid_quoted (hout _ (by decide) (by decide) (by decide))
      (hout _ (by decide) (by decide) (by decide))
  | text t =>
    exact solid_quoted (fun hq => absurd (h _ hq) (by decide)) fun hs => absurd (h _ hs) (by decide)

theorem Operator.solid_symbol (op : Operator) : Solid op.symbol := by
  cases op with
  | between => exact solid_of_isPlainName (by decide)
  | _ => exact Outline.solid_signs (by decide) (by decide)

theorem solid_collapse_of_solid {t : Text} (h : Solid t) : Solid (Text.collapse t) :=
  h.collapse_eq.symm ▸ h

/-- The pieces a condition is written with, between spaces. -/
def Predicate.pieces (p : Predicate) : List Text :=
  match p.operand with
  | .single l => [p.column, p.operator.symbol, l.sql]
  | .range low high => [p.column, "BETWEEN", low.sql, "AND", high.sql]

theorem Predicate.sql_eq (p : Predicate) : p.sql = Text.join [' '] p.pieces := by
  obtain ⟨column, op, operand⟩ := p
  cases operand <;> simp [Predicate.sql, pieces, Text.join]

/-- What holds of names, operators and literals holds of the pieces of a condition. -/
theorem Predicate.forall_mem_pieces {P : Text → Prop} {p : Predicate} (hcolumn : P p.column)
    (hsymbol : ∀ op : Operator, P op.symbol) (hand : P "AND")
    (hliterals : ∀ l ∈ p.operand.literals, P l.sql) : ∀ t ∈ p.pieces, P t := by
  obtain ⟨column, op, operand⟩ := p
  cases operand with
  | single l =>
    simp only [pieces, List.forall_mem_cons]
    exact ⟨hcolumn, hsymbol op, hliterals l List.mem_cons_self, by simp⟩
  | range low high =>
    simp only [pieces, List.forall_mem_cons]
    exact ⟨hcolumn, hsymbol .between, hliterals low List.mem_cons_self, hand,
      hliterals high (List.mem_cons_of_mem _ List.mem_cons_self), by simp⟩

theorem Predicate.pieces_ne_nil (p : Predicate) : p.pieces ≠ [] := by
  obtain ⟨column, op, operand⟩ := p
  cases operand <;> exact List.cons_ne_nil _ _

/-- A condition on a plain name with safe literals, collapsed, is solid. -/
theorem Predicate.solid_collapse {p : Predicate} (hc : isPlainName p.column = true)
    (hl : ∀ l ∈ p.operand.literals, l.Safe) : Solid (Text.collapse p.sql) := by
  rw [p.sql_eq]
  refine Outline.solid_collapse_join p.pieces_ne_nil (forall_mem_pieces ?_ (fun op => ?_) ?_ ?_)
  · exact solid_collapse_of_solid (solid_of_isPlainName hc)
  · exact solid_collapse_of_solid op.solid_symbol
  · exact solid_collapse_of_solid (solid_of_isPlainName (by decide))
  · exact fun l hmem => Literal.solid_collapse (hl l hmem)

/-- Conditions joined by `AND` are solid together when they are so one by one. -/
theorem solid_collapse_conjunction {ts : List Text} (hne : ts ≠ [])
    (h : ∀ t ∈ ts, Solid (Text.collapse t)) : Solid (Text.collapse (Text.join " AND " ts)) := by
  induction ts with
  | nil => exact absurd rfl hne
  | cons t ts ih =>
    have ht := h t List.mem_cons_self
    by_cases hnil : ts = []
    · subst hnil
      exact ht
    · have hrest := ih hnil fun u hu => h u (List.mem_cons_of_mem _ hu)
      have hjoin : Text.join " AND " (t :: ts)
          = Text.join [' '] [t, "AND", Text.join " AND " ts] := by
        rw [Text.join_cons _ _ hnil]
        simp [Text.join]
      rw [hjoin]
      refine Outline.solid_collapse_join (List.cons_ne_nil _ _) fun u hu => ?_
      simp only [List.mem_cons, List.not_mem_nil, or_false] at hu
      rcases hu with rfl | rfl | rfl
      · exact ht
      · exact solid_collapse_of_solid (solid_of_isPlainName (by decide))
      · exact hrest

/-! ## Orders and figures -/

theorem Order.solid_sql {o : Order} (h : isPlainName o.column = true) : Solid o.sql := by
  have hword : Solid o.direction.word := by
    cases o.direction <;> exact solid_of_isPlainName (by decide)
  exact (solid_of_isPlainName h).separated Outline.separates_space hword

theorem Order.compact_sql {o : Order} (h : isIdentifier o.column = true) : Compact o.sql := by
  have hword : Compact o.direction.word := by
    cases o.direction <;> exact (solid_of_isPlainName (by decide)).compact
  exact (compact_of_isIdentifier h).separated Outline.separates_space hword

/-- A function applied to a word that opens and closes nothing is solid. -/
theorem solid_application {f arg : Text} (hf : isPlainName f = true)
    (harg : ∀ c ∈ arg, isBlank c = false ∧ c ≠ ';' ∧ Nesting.read ⟨1, none⟩ c = ⟨1, none⟩) :
    Solid (f ++ '(' :: (arg ++ [')'])) := by
  have hname := solid_of_isPlainName hf
  have hinner := Outline.inert_parenthesized fun c hc => (harg c hc).2.2
  have hap : Text.Apart f ('(' :: (arg ++ [')'])) :=
    .of_head fun c hc => by rw [← Option.some.inj hc]; decide
  refine Outline.solid_of_isWord ⟨List.append_ne_nil_of_left_ne_nil hname.ne_nil _, ?_⟩
    (hname.inert.append hinner hap) ?_
  · intro c hc
    simp only [List.mem_append, List.mem_cons, List.not_mem_nil, or_false] at hc
    rcases hc with hc | rfl | hc | rfl
    · exact isBlank_of_isIdentifierChar (isIdentifierChar_of_isPlainName hf c hc)
    · decide
    · exact (harg c hc).1
    · decide
  · intro hc
    simp only [List.mem_append, List.mem_cons, List.not_mem_nil, or_false] at hc
    rcases hc with hc | hc | hc | hc
    · exact hname.no_semicolon hc
    · exact absurd hc (by decide)
    · exact (harg _ hc).2.1 rfl
    · exact absurd hc (by decide)

/-- The call of an aggregate with its label is solid. -/
theorem AggregateCall.solid_sql {f arg label : Text} (hf : isPlainName f = true)
    (harg : ∀ c ∈ arg, isBlank c = false ∧ c ≠ ';' ∧ Nesting.read ⟨1, none⟩ c = ⟨1, none⟩)
    (hlabel : Solid label) : Solid (f ++ '(' :: (arg ++ [')']) ++ " AS " ++ label) := by
  have hcall := solid_application hf harg
  have has : Solid "AS" := solid_of_isPlainName (by decide)
  have hjoin := (hcall.separated Outline.separates_space has).separated
    Outline.separates_space hlabel
  simpa using hjoin

theorem AggregateCall.solid_count : Solid AggregateCall.count.sql := by
  have hstar : ∀ c ∈ ['*'], isBlank c = false ∧ c ≠ ';' ∧
      Nesting.read ⟨1, none⟩ c = ⟨1, none⟩ := by
    intro c hc
    rw [List.mem_singleton.1 hc]
    decide
  exact solid_sql (f := "COUNT") (by decide) hstar (solid_of_isPlainName (by decide))

theorem AggregateCall.solid_ofColumn {a : Aggregate} {column : Text}
    (h : isPlainName column = true) : Solid (AggregateCall.ofColumn a column).sql := by
  have hid := isIdentifierChar_of_isPlainName h
  have harg : ∀ c ∈ column, isBlank c = false ∧ c ≠ ';' ∧
      Nesting.read ⟨1, none⟩ c = ⟨1, none⟩ := by
    intro c hc
    obtain ⟨hblank, hne⟩ := ne_sign_of_isIdentifierChar (d := ';') (hid c hc) (by decide)
    exact ⟨hblank, hne, read_of_isIdentifierChar (hid c hc) 1⟩
  have hname : ∀ c ∈ a.name, isIdentifierChar c = true := by
    rw [← List.all_eq_true]
    cases a <;> decide
  have hlabel : Solid (a.name ++ "_" ++ column) := by
    refine Outline.solid_run (by simp) (fun c hc => ?_)
      (asciiUpper_not_mem_of_underscore (by simp))
    simp only [List.mem_append] at hc
    rcases hc with (hc | hc) | hc
    · exact hname c hc
    · rw [List.mem_singleton.1 hc]
      decide
    · exact hid c hc
  have hfunction : isPlainName a.function = true := by cases a <;> decide
  have hcall := solid_sql hfunction harg hlabel
  have hsql : (AggregateCall.ofColumn a column).sql
      = a.function ++ '(' :: (column ++ [')']) ++ " AS " ++ (a.name ++ "_" ++ column) := by
    simp [AggregateCall.sql, AggregateCall.ofColumn]
  rw [hsql]
  exact hcall

theorem AggregateCall.compact_ofColumn {a : Aggregate} {column : Text}
    (h : isIdentifier column = true) : Compact (AggregateCall.ofColumn a column).sql := by
  have hcolumn : ∀ c ∈ column, isBlank c = false ∧ c ≠ ';' := fun c hc =>
    ne_sign_of_isIdentifierChar (isIdentifierChar_of_isIdentifier h c hc) (by decide)
  have hfunction : ∀ c ∈ a.function, isBlank c = false ∧ c ≠ ';' := by cases a <;> decide
  have hname : ∀ c ∈ a.name ++ ['_'], isBlank c = false ∧ c ≠ ';' := by cases a <;> decide
  have hcall : Compact (a.function ++ '(' :: (column ++ [')'])) := by
    refine Outline.compact_of_chars (by simp) (List.forall_mem_append.2 ⟨hfunction, ?_⟩)
    exact List.forall_mem_cons.2 ⟨by decide, List.forall_mem_append.2 ⟨hcolumn, by decide⟩⟩
  have hlabel : Compact (a.name ++ ['_'] ++ column) :=
    Outline.compact_of_chars (by simp) (List.forall_mem_append.2 ⟨hname, hcolumn⟩)
  have has : Compact "AS" := (solid_of_isPlainName (by decide)).compact
  have hjoin := (hcall.separated Outline.separates_space has).separated
    Outline.separates_space hlabel
  simpa [AggregateCall.sql, AggregateCall.ofColumn] using hjoin

end SqlScribe
