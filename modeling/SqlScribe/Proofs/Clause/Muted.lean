import SqlScribe.Proofs.Clause.Literal
import SqlScribe.Proofs.Clause.Reading

/-!
# Scanning a muted text

Clauses open outside of literals, so a text whose literals are blanked out has the same
clauses as the text, with the literals of their bodies blanked out. Main statements:

* `Outline.split_mute`: the two texts are split at the same places;
* `Outline.scan_mute`: the outline of the muted text;
* `Outline.literals_scan`: the literals of a text are those of its bodies, in order;
* `Outline.literals_render`: writing an outline squeezes the literals of its bodies.
-/

namespace SqlScribe

/-- The clause with the literals of its body blanked out. -/
def Clause.mute (c : Clause) : Clause := ⟨c.kind, c.body.mute⟩

/-- The outline with the literals of all bodies blanked out. -/
def Outline.mute (o : Outline) : Outline := { o with clauses := o.clauses.map Clause.mute }

theorem Outline.clauses_mute (o : Outline) : o.mute.clauses = o.clauses.map Clause.mute := rfl

theorem Text.not_mem_quoteMarks_of_isIdentifierChar {c : Char} (h : isIdentifierChar c = true) :
    c ∉ Text.quoteMarks := by
  intro hc
  have hall : (Text.quoteMarks.all fun x => !isIdentifierChar x) = true := by decide
  exact absurd (List.all_eq_true.1 hall c hc) (by simp [h])

/-! ## Keywords -/

/-- Blanking out literals hides no keyword and brings none about. -/
theorem Keyword.after?_muteFrom {w : Text}
    (hw : (w.all fun e => e == ' ' || e.isUpper) = true) (t : Text) :
    after? w (Text.muteFrom none t) = (after? w t).map (Text.muteFrom none) := by
  induction w generalizing t with
  | nil => rfl
  | cons e w ih =>
    rw [List.all_cons, Bool.and_eq_true] at hw
    cases t with
    | nil => rfl
    | cons c t =>
      -- a character of the word neither opens nor closes a quotation
      have hnext : c ∉ Text.quoteMarks →
          Text.muteFrom (closingAfter none c) t = Text.muteFrom none t := fun hc => by
        rw [Text.closingAfter_of_not_mem Text.isClosing_none hc]
      rw [Text.muteFrom_cons (by simp), after?, after?]
      split
      · split
        · next hc =>
          rw [hnext (Text.not_mem_quoteMarks_of_isBlank hc), Text.dropWhile_isBlank_muteFrom,
            ih hw.2]
        · rfl
      · next he =>
        split
        · next hc =>
          have hupper : c.toUpper.isUpper = true := by
            rw [← eq_of_beq hc]
            simpa [he] using hw.1
          have hid := isIdentifierChar_of_isAlpha (isAlpha_of_isUpper_toUpper hupper)
          rw [hnext (Text.not_mem_quoteMarks_of_isIdentifierChar hid), ih hw.2]
        · rfl

theorem ClauseKind.length?_muteFrom (k : ClauseKind) (before : Option Char) (t : Text) :
    k.keyword.length? before (Text.muteFrom none t) = k.keyword.length? before t := by
  have hafter := Keyword.after?_muteFrom k.word_letters t
  rw [← keyword_word] at hafter
  rw [Keyword.length?, Keyword.length?, hafter]
  cases Keyword.after? k.keyword.word t with
  | none => rfl
  | some r =>
    cases r with
    | nil => rfl
    | cons c r =>
      rw [Option.map_some, Text.muteFrom_cons (by simp)]
      simp only [List.length_cons, Text.length_muteFrom]

namespace Outline

theorem opens?_muteFrom (k : ClauseKind) (before : Option Char) (t : Text) :
    opens? k before (Text.muteFrom none t) = opens? k before t := by
  simp only [opens?, ClauseKind.length?_muteFrom]

/-- A keyword that opens a clause neither opens nor closes a quotation. -/
theorem not_mem_quoteMarks_of_opens? {k : ClauseKind} {before : Option Char} {t : Text}
    {x : ClauseKind × Nat} (h : opens? k before t = some x) :
    ∀ c ∈ t.take x.2, c ∉ Text.quoteMarks := fun c hc =>
  ((take_of_opens? h).2 c hc).elim Text.not_mem_quoteMarks_of_isIdentifierChar
    Text.not_mem_quoteMarks_of_isBlank

/-! ## Splitting -/

/-- The parts `r` of a text, and the parts `r'` of the muted text. -/
structure MutedParts (q : Option Char) (t : Text) (r r' : Text × List Clause) : Prop where
  body : r'.1 = Text.muteFrom q r.1
  clauses : r'.2 = r.2.map Clause.mute
  closed : Text.closingAt q r.1 = none
  bodies_closed : ∀ c ∈ r.2, c.body.Closed
  literals : Text.literalsFrom q t
    = Text.literalsFrom q r.1 ++ r.2.flatMap fun c => c.body.literals

/-- A character of the body in front of other parts. -/
theorem MutedParts.putFront {q : Option Char} {c : Char} {t : Text} {r r' : Text × List Clause}
    (h : MutedParts (closingAfter q c) t r r') :
    MutedParts q (c :: t) (putFront [c] r)
      (putFront [if q = some '\'' ∧ c ≠ '\'' then ' ' else c] r') := by
  refine ⟨?_, h.clauses, h.closed, h.bodies_closed, ?_⟩
  · show _ :: r'.1 = Text.muteFrom q (c :: r.1)
    rw [h.body, Text.muteFrom]
  · show _ = Text.literalsFrom q (c :: r.1) ++ r.2.flatMap fun c => c.body.literals
    have hliterals := h.literals
    by_cases hq : q = some '\''
    · subst hq
      by_cases hc : c = '\''
      · subst hc
        rw [closingAfter_some, if_pos rfl] at hliterals
        rw [Text.literalsFrom_closing, Text.literalsFrom_closing, hliterals]
        rfl
      · have hclosed := h.closed
        rw [closingAfter_some, if_neg hc] at hliterals hclosed
        rw [Text.literalsFrom_inside hc, Text.literalsFrom_inside hc, hliterals,
          Text.prepend_append (Text.literalsFrom_ne_nil (by rw [hclosed]; simp))]
    · rw [Text.literalsFrom_outside hq, Text.literalsFrom_outside hq, hliterals]

/-- A clause whose body comes first. -/
theorem MutedParts.opening {kind : ClauseKind} {t : Text} {r r' : Text × List Clause}
    (h : MutedParts none t r r') :
    MutedParts none t ([], ⟨kind, Text.trim r.1⟩ :: r.2) ([], ⟨kind, Text.trim r'.1⟩ :: r'.2) := by
  obtain ⟨hclosed, hmute, hliterals⟩ := Text.trim_closed h.closed
  refine ⟨rfl, ?_, rfl, fun c hc => ?_, ?_⟩
  · rw [h.clauses, h.body, List.map_cons]
    exact congrArg (fun b => Clause.mk kind b :: r.2.map Clause.mute) hmute
  · rcases List.mem_cons.1 hc with rfl | hc
    · exact hclosed
    · exact h.bodies_closed c hc
  · rw [h.literals, List.flatMap_cons, hliterals]
    rfl

/-- A character in front that belongs to a keyword. -/
theorem MutedParts.passOver {c : Char} {t : Text} {r r' : Text × List Clause}
    (h : MutedParts none t r r') (hc : c ∉ Text.quoteMarks) : MutedParts none (c :: t) r r' := by
  refine ⟨h.body, h.clauses, h.closed, h.bodies_closed, ?_⟩
  rw [Text.literalsFrom_outside (by simp), Text.closingAfter_of_not_mem Text.isClosing_none hc,
    h.literals]

/-- The character that a place of the muted text is read from does not change the nesting in
another way. -/
theorem read_muted (n : Nesting) (c : Char) :
    n.read (if n.closing = some '\'' ∧ c ≠ '\'' then ' ' else c) = n.read c := by
  split
  · next h =>
    obtain ⟨hclosing, hc⟩ := h
    rw [Nesting.read, Nesting.read, hclosing]
    simp [hc]
  · rfl

/-- **Where the muted text is split.** A text is split at the places the muted text is split
at, from every nesting and with the rest of a keyword still to be passed over. -/
theorem split_mute (k : ClauseKind) (n : Nesting) {before before' : Option Char} {skip : Nat}
    {t : Text} (hclosed : Text.closingAt n.closing t = none)
    (hbefore : n.closing ≠ some '\'' → before' = before)
    (hskip : 0 < skip → n.closing = none ∧ ∀ c ∈ t.take skip, c ∉ Text.quoteMarks) :
    MutedParts n.closing t (split k n before skip t)
      (split k n before' skip (Text.muteFrom n.closing t)) := by
  induction t generalizing k n before before' skip with
  | nil =>
    cases skip <;>
      exact ⟨rfl, rfl, hclosed, fun c hc => absurd hc List.not_mem_nil, rfl⟩
  | cons c t ih =>
    cases skip with
    | succ skip =>
      obtain ⟨hnone, hmarks⟩ := hskip (Nat.succ_pos skip)
      rw [List.take_succ_cons] at hmarks
      have hnext := Text.closingAfter_of_not_mem Text.isClosing_none (hmarks c List.mem_cons_self)
      have hrest : Text.closingAt (closingAfter n.closing c) t = none := hclosed
      rw [hnone, hnext] at hrest
      rw [hnone, Text.muteFrom_cons (by simp), hnext, split, split]
      have hparts := @ih k n (some c) (some c) skip (hnone ▸ hrest) (fun _ => rfl)
        fun _ => ⟨hnone, fun d hd => hmarks d (List.mem_cons_of_mem c hd)⟩
      rw [hnone] at hparts
      exact hparts.passOver (hmarks c List.mem_cons_self)
    | zero =>
      have hrest : Text.closingAt (n.read c).closing t = none := by
        rw [closing_read]
        exact hclosed
      have hread := read_muted n c
      rw [Text.muteFrom, ← closing_read]
      -- what opens here is the same in both texts, since nothing opens inside of quotations
      have hopens : n.closing = none →
          opens? k before' ((if n.closing = some '\'' ∧ c ≠ '\'' then ' ' else c)
            :: Text.muteFrom (n.read c).closing t) = opens? k before (c :: t) := by
        intro hnone
        rw [hbefore (by simp [hnone]), ← opens?_muteFrom k before (c :: t),
          Text.muteFrom_cons (by simp), if_neg (by simp [hnone]), closing_read, hnone]
      by_cases hopen : (n.read c).isTop = true ∧ n.closing = none ∧
          opens? k before (c :: t) ≠ none
      · obtain ⟨htop, hnone, hne⟩ := hopen
        obtain ⟨x, hx⟩ := Option.ne_none_iff_exists'.1 hne
        obtain ⟨kind, length⟩ := x
        have hclosing : (n.read c).closing = none := by
          rw [Nesting.isTop, Bool.and_eq_true, Option.isNone_iff_eq_none] at htop
          exact htop.2
        have hmarks := not_mem_quoteMarks_of_opens? hx
        obtain ⟨length, rfl⟩ := Nat.exists_eq_succ_of_ne_zero (Nat.ne_of_gt (take_of_opens? hx).1)
        rw [List.take_succ_cons] at hmarks
        have hparts := @ih kind (n.read c) (some c) (some c) length hrest (fun _ => rfl)
          fun _ => ⟨hclosing, fun d hd => hmarks d (List.mem_cons_of_mem c hd)⟩
        rw [split_opening htop hnone hx,
          split_opening (by rw [hread, htop]) hnone ((hopens hnone).trans hx), hread,
          if_neg (by simp [hnone]), hnone]
        rw [hclosing] at hparts ⊢
        exact hparts.opening.passOver (hmarks c List.mem_cons_self)
      · have hnone : (n.read c).isTop = true → n.closing = none →
            opens? k before (c :: t) = none := fun htop hnone => by
          by_contra hne
          exact hopen ⟨htop, hnone, hne⟩
        rw [split_cons hnone, split_cons fun htop hclosing =>
          (hopens hclosing).trans (hnone (hread ▸ htop) hclosing), hread]
        have hparts := @ih k (n.read c) (some c)
          (some (if n.closing = some '\'' ∧ c ≠ '\'' then ' ' else c)) 0 hrest (fun hout => by
            rw [if_neg fun hin => hout ?_]
            rw [closing_read]
            exact closingAfter_eq_quote_iff.2 (Or.inl hin)) fun h => absurd h (Nat.lt_irrefl 0)
        rw [closing_read] at hparts ⊢
        exact hparts.putFront

/-! ## Outlines -/

/-- What is known of the clauses of a text and of the muted text. -/
structure MutedClauses (t : Text) (cs cs' : List Clause) : Prop where
  muted : cs' = cs.map Clause.mute
  closed : ∀ c ∈ cs, c.body.Closed
  literals : t.literals = cs.flatMap fun c => c.body.literals

theorem clausesOf_mute {t : Text} (h : t.Closed) :
    MutedClauses t (clausesOf t) (clausesOf t.mute) := by
  have hparts : MutedParts none t (split .leading .top none 0 t)
      (split .leading .top none 0 t.mute) :=
    split_mute .leading .top h (fun _ => rfl) fun h => absurd h (Nat.lt_irrefl 0)
  rw [clausesOf, clausesOf]
  generalize split .leading .top none 0 t = r at hparts
  generalize split .leading .top none 0 t.mute = r' at hparts
  obtain ⟨hbody, hclauses, hclosed, hbodies, hliterals⟩ := hparts
  obtain ⟨htrim, hmute, hsame⟩ := Text.trim_closed hclosed
  have hbody' : Text.trim r'.1 = (Text.trim r.1).mute := hbody ▸ hmute
  rw [hbody', hclauses]
  by_cases hnil : Text.trim r.1 = []
  · have hnone : r.1.literals = [] := by rw [← hsame, hnil]; rfl
    rw [hnil]
    refine ⟨rfl, hbodies, ?_⟩
    rw [Text.literals, hliterals, ← Text.literals, hnone]
    rfl
  · have hne : ∀ u : Text, u ≠ [] → u.isEmpty = false := fun u hu => by
      rwa [← Bool.not_eq_true, List.isEmpty_iff]
    have hmuted : (Text.trim r.1).mute ≠ [] := fun hmuted => by
      have hlength := Text.length_muteFrom none (Text.trim r.1)
      rw [← Text.mute, hmuted] at hlength
      exact hnil (List.eq_nil_of_length_eq_zero hlength.symm)
    rw [hne _ hnil, hne _ hmuted]
    refine ⟨rfl, fun c hc => ?_, ?_⟩
    · rcases List.mem_cons.1 hc with rfl | hc
      · exact htrim
      · exact hbodies c hc
    · rw [Text.literals, hliterals]
      show _ = (Text.trim r.1).literals ++ _
      rw [hsame]
      rfl

theorem bodyOf_closed {t : Text} (h : t.Closed) :
    (bodyOf t).Closed ∧ bodyOf t.mute = (bodyOf t).mute ∧ (bodyOf t).literals = t.literals := by
  have hsemicolon : ∀ c, (c == ';') = true → c ∉ Text.quoteMarks := fun c hc => by
    rw [eq_of_beq hc]
    decide
  obtain ⟨h₁, hmute₁, hliterals₁⟩ := Text.trim_closed h
  obtain ⟨h₂, hmute₂, hliterals₂⟩ := Text.dropEnd_closed hsemicolon h₁
  obtain ⟨h₃, hmute₃, hliterals₃⟩ :=
    Text.dropEnd_closed (fun c hc => Text.not_mem_quoteMarks_of_isBlank hc) h₂
  refine ⟨h₃, ?_, hliterals₃.trans (hliterals₂.trans hliterals₁)⟩
  rw [bodyOf, bodyOf, hmute₁, hmute₂, Text.trimEnd, hmute₃, Text.trimEnd]

theorem endsWith_semicolon (t : Text) : Text.endsWith t ";" = (t.getLast? == some ';') := by
  have hsemicolon : ";".toList = [';'] := rfl
  rw [hsemicolon, Text.endsWith, ← List.head?_reverse]
  cases t.reverse with
  | nil => rfl
  | cons d r => simp [List.isPrefixOf, eq_comm]

/-- **The outline of a muted text.** It has the clauses of the text, with the literals of
their bodies blanked out. -/
theorem scan_mute {t : Text} (h : t.Closed) : scan t.mute = (scan t).mute := by
  obtain ⟨hbody, hmute, -⟩ := bodyOf_closed h
  obtain ⟨htrim, htrimmed, -⟩ := Text.trim_closed h
  have hlast : (Text.trim t).mute.getLast? = (Text.trim t).getLast? :=
    Text.getLast?_muteFrom (by rw [htrim]; simp)
  rw [scan, scan, hmute, (clausesOf_mute hbody).muted, htrimmed, endsWith_semicolon,
    endsWith_semicolon, hlast, mute]

/-- The bodies of a text that is closed are closed, and its literals are theirs, in order. -/
theorem literals_scan {t : Text} (h : t.Closed) :
    (∀ c ∈ (scan t).clauses, c.body.Closed) ∧
      t.literals = (scan t).clauses.flatMap fun c => c.body.literals := by
  obtain ⟨hbody, -, hliterals⟩ := bodyOf_closed h
  have hclauses := clausesOf_mute hbody
  rw [scan_clauses, ← hliterals]
  exact ⟨hclauses.closed, hclauses.literals⟩

/-! ## Writing -/

theorem not_mem_quoteMarks_of_word {k : ClauseKind} : ∀ c ∈ k.word, c ∉ Text.quoteMarks := by
  intro c hc
  have hletter := List.all_eq_true.1 k.word_letters c hc
  rcases Bool.or_eq_true_iff.1 hletter with h | h
  · rw [eq_of_beq h]
    decide
  · refine Text.not_mem_quoteMarks_of_isIdentifierChar (isIdentifierChar_of_isAlpha ?_)
    exact isAlpha_iff.2 (Or.inl h)

/-- The word of a clause adds no literal to those of its body. -/
theorem writeClause_closed {c : Clause} (h : c.body.Closed) :
    (writeClause c).Closed ∧ (writeClause c).literals = c.body.literals := by
  by_cases hc : c.kind = .leading
  · rw [writeClause, hc]
    exact ⟨h, rfl⟩
  · have hword : ∀ x ∈ c.kind.word ++ [' '], x ∉ Text.quoteMarks := by
      intro x hx
      rcases List.mem_append.1 hx with hx | hx
      · exact not_mem_quoteMarks_of_word x hx
      · rw [List.mem_singleton.1 hx]
        decide
    have hopen : Text.closingAt none (c.kind.word ++ [' ']) = none :=
      Text.closingAt_of_not_mem Text.isClosing_none hword
    rw [writeClause_eq hc, List.append_cons, Text.Closed, Text.closingAt_append, hopen,
      Text.literals, Text.literalsFrom_append hopen]
    refine ⟨h, ?_⟩
    rw [← Text.literals, Text.literals_of_not_mem hword]
    rfl

/-- Parts that are closed may be joined by spaces. -/
theorem join_closed {ts : List Text} (h : ∀ t ∈ ts, t.Closed) :
    (Text.join [' '] ts).Closed ∧ (Text.join [' '] ts).literals = ts.flatMap Text.literals := by
  induction ts with
  | nil => exact ⟨rfl, rfl⟩
  | cons t ts ih =>
    obtain ⟨hclosed, hliterals⟩ := ih fun u hu => h u (List.mem_cons_of_mem t hu)
    have ht := h t List.mem_cons_self
    by_cases hts : ts = []
    · subst hts
      exact ⟨ht, (List.append_nil _).symm⟩
    · have hspace : Text.closingAt none (t ++ [' ']) = none := by
        rw [Text.closingAt_append, ht]
        rfl
      rw [Text.join_cons _ _ hts, Text.Closed, Text.closingAt_append, hspace, Text.literals,
        Text.literalsFrom_append hspace, Text.literalsFrom_append ht]
      refine ⟨hclosed, ?_⟩
      have hnone : Text.literalsFrom none [' '] = [] := rfl
      rw [hnone, List.append_nil, List.flatMap_cons, ← hliterals]
      rfl

/-- Writing closed bodies squeezes their literals and adds none. -/
theorem literals_render {o : Outline} (h : ∀ c ∈ o.clauses, c.body.Closed) :
    o.render.literals = (o.clauses.flatMap fun c => c.body.literals).map Text.squeeze := by
  have hall : ∀ t ∈ o.clauses.map writeClause, t.Closed := by
    intro t ht
    obtain ⟨c, hc, rfl⟩ := List.mem_map.1 ht
    exact (writeClause_closed (h c hc)).1
  obtain ⟨hclosed, hliterals⟩ := join_closed hall
  have hbodies : (o.clauses.map writeClause).flatMap Text.literals
      = o.clauses.flatMap fun c => c.body.literals := by
    rw [List.flatMap_map]
    exact List.flatMap_congr fun c hc => (writeClause_closed (h c hc)).2
  obtain ⟨hcollapsed, hwritten⟩ := Text.collapse_closed hclosed
  rw [hliterals, hbodies] at hwritten
  rw [render_eq, Text.literals, written, Text.literalsFrom_append hcollapsed]
  have hend : Text.literalsFrom none (if o.terminated then [';'] else []) = [] := by
    split <;> rfl
  rw [hend, List.append_nil]
  exact hwritten

end Outline

end SqlScribe
