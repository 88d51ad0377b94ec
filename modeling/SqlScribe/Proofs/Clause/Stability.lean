import SqlScribe.Proofs.Clause.Reading
import SqlScribe.Proofs.Statement.NormalForm

/-!
# Scanning what was scanned

A statement in normal form that is scanned and written is read again as it was, however its
quotations, parentheses and keywords stand. Where a clause opens, the text in front of it is
written with a space behind it; this neither adds nor takes a keyword. Main statements:

* `Keyword.after?_append_iff`, `Passes.concat_space`: what a keyword sees of the text behind it;
* `settled_clausesOf`: the clauses of a tidy text hold together by themselves;
* `scan_render_scan`: scanning is stable under writing.
-/

namespace SqlScribe

namespace Keyword

/-- A word that is found with something left of a text is found in the text alone. -/
theorem after?_append_iff {w x y s : Text} (hy : y ≠ []) :
    after? w (x ++ s) = some (y ++ s) ↔ after? w x = some y := by
  induction w generalizing x with
  | nil => simp [after?]
  | cons e w ih =>
    have hshort : ∀ t : Text, t.length ≤ s.length → after? w t ≠ some (y ++ s) := by
      intro t ht h
      obtain ⟨u, rfl, -⟩ := taken_of_after? h
      have hpos := List.length_pos_of_ne_nil hy
      simp only [List.length_append] at ht
      omega
    cases x with
    | nil =>
      refine ⟨fun h => ?_, fun h => absurd h (by simp [after?])⟩
      obtain ⟨u, hu, -⟩ := taken_of_after? h
      have hlength := congrArg List.length hu
      have hpos := List.length_pos_of_ne_nil hy
      simp only [List.nil_append, List.length_append] at hlength
      omega
    | cons c x =>
      rw [List.cons_append, after?, after?]
      split
      · split
        · rw [List.dropWhile_append]
          split
          · next hx =>
            -- the blanks reach to the end of the text, where nothing is left to find
            have hend : after? w [] ≠ some y := by
              cases w with
              | nil => simpa [after?] using hy.symm
              | cons f w => simp [after?]
            rw [List.isEmpty_iff.1 hx]
            have hle := (List.dropWhile_suffix isBlank (l := s)).length_le
            exact ⟨fun h => absurd h (hshort _ hle), fun h => absurd h hend⟩
          · exact ih
        · simp
      · split
        · exact ih
        · simp

end Keyword

namespace Outline

variable {k kind : ClauseKind} {n : Nesting} {before : Option Char} {t u v rest : Text}

/-! ## What a keyword sees of the text behind it -/

/-- A clause opens where a keyword of a later clause is found with one of the characters it
asks for behind it. -/
theorem opens?_ne_none (hlt : k.rank < kind.rank) (hstart : Keyword.mayStartAfter before = true)
    {d : Char} {r : Text} (hafter : Keyword.after? kind.word t = some (d :: r))
    (hacc : kind.keyword.accepts d = true) : opens? k before t ≠ none := by
  intro hnone
  have hkind : kind ∈ ClauseKind.openable := by
    refine ClauseKind.mem_openable ?_
    rintro rfl
    exact absurd hlt (Nat.not_lt_zero _)
  have hlength := Keyword.length?_eq_some_iff.2
    ⟨hstart, d, r, kind.keyword_word.symm ▸ hafter, hacc, rfl⟩
  have hfind := List.findSome?_eq_none_iff.1 hnone kind hkind
  rw [if_pos hlt, hlength] at hfind
  exact absurd hfind (by simp)

/-- A clause that opens in a text opens there with more text behind it. -/
theorem opens?_ne_none_append (h : opens? k before t ≠ none) (e : Text) :
    opens? k before (t ++ e) ≠ none := by
  obtain ⟨x, hx⟩ := Option.ne_none_iff_exists'.1 h
  obtain ⟨hlt, hstart, w, d, r, -, -, -, -, hafter, hacc⟩ := exists_of_opens? hx
  refine opens?_ne_none hlt hstart (r := r ++ e) ?_ hacc
  exact (Keyword.after?_append_iff (List.cons_ne_nil d r)).2 hafter

/-- Behind a sign a space opens nothing that the text alone does not open. -/
theorem opens?_concat_space {x : Char} (hx : isIdentifierChar x = false)
    (hblank : isBlank x = false) (h : opens? k before (t ++ [x]) = none) :
    opens? k before (t ++ [x] ++ [' ']) = none := by
  by_contra hne
  obtain ⟨y, hy⟩ := Option.ne_none_iff_exists'.1 hne
  obtain ⟨hlt, hstart, w, d, r, htext, -, hwne, hw, hafter, hacc⟩ := exists_of_opens? hy
  rcases List.eq_nil_or_concat r with rfl | ⟨r, c, rfl⟩
  · -- the keyword would end in the sign
    obtain ⟨hwt, -⟩ := List.append_inj' htext rfl
    have hmem := hw x (hwt ▸ List.mem_append_right t (List.mem_singleton_self x))
    rw [hx, hblank] at hmem
    exact absurd hmem (by simp)
  · rw [List.concat_eq_append, ← List.cons_append, ← List.append_assoc] at htext
    obtain ⟨-, hc⟩ := List.append_inj' htext rfl
    rw [List.concat_eq_append, ← hc, ← List.cons_append] at hafter
    have hwithin := (Keyword.after?_append_iff (List.cons_ne_nil d r)).1 hafter
    exact opens?_ne_none hlt hstart hwithin hacc h

/-! ## Passing over a text -/

/-- A text that is passed over with more text behind it is passed over with less. -/
theorem Passes.of_append {e : Text} (h : Passes k n before t (rest ++ e)) :
    Passes k n before t rest := by
  induction t generalizing n before with
  | nil => trivial
  | cons c t ih =>
    refine ⟨fun htop hclosing => ?_, ih h.2⟩
    by_contra hne
    have happ := opens?_ne_none_append hne e
    rw [List.cons_append, List.append_assoc] at happ
    exact happ (h.1 htop hclosing)

/-- A text that ends in a sign is passed over together with a space behind it. -/
theorem Passes.concat_space {x : Char} (hx : isIdentifierChar x = false)
    (hblank : isBlank x = false) (h : Passes k n before (t ++ [x]) []) :
    Passes k n before (t ++ [x] ++ [' ']) [] := by
  have hspace : ∀ m b, Passes k m b [' '] [] :=
    fun m b => ⟨fun _ _ => opens?_eq_none_of_sign _ (by decide), trivial⟩
  induction t generalizing n before with
  | nil => exact ⟨fun _ _ => opens?_eq_none_of_sign _ hx, hspace _ _⟩
  | cons c t ih =>
    refine ⟨fun htop hclosing => ?_, ih h.2⟩
    have hnone := h.1 htop hclosing
    rw [List.append_nil] at hnone ⊢
    exact opens?_concat_space (t := c :: t) hx hblank hnone

/-- Of the character in front only matters whether a keyword may start behind it, and for a
text that begins with a sign not even that. -/
def Starts (before : Option Char) (t : Text) : Prop :=
  Keyword.mayStartAfter before = true ∨ ∃ c r, t = c :: r ∧ isIdentifierChar c = false

theorem Passes.of_starts (h : Passes k n before t rest) (hstart : Starts before t) :
    Passes k n (some ' ') t rest := by
  cases t with
  | nil => trivial
  | cons c t =>
    refine ⟨fun htop hclosing => ?_, h.2⟩
    rcases hstart with hbefore | ⟨d, r, hd, hsign⟩
    · have hsame : Keyword.mayStartAfter (some ' ') = Keyword.mayStartAfter before := by
        rw [hbefore]
        decide
      rw [opens?_congr hsame]
      exact h.1 htop hclosing
    · obtain ⟨rfl, -⟩ := List.cons.inj hd
      exact opens?_eq_none_of_sign _ hsign

/-! ## Tidy texts -/

/-- A text such as the end of a statement in normal form is: single spaces for layout, and
neither a blank nor a `;` at its end. -/
structure Tidy (t : Text) : Prop where
  only_spaces : ∀ c ∈ t, isBlank c = true → c = ' '
  no_double : t.IsChain fun c d => c = ' ' → d ≠ ' '
  last : ∀ c, t.getLast? = some c → Statement.isTerminator c = false

theorem tidy_of_isBody (h : Statement.IsBody t) : Tidy t :=
  ⟨h.spaced.only_spaces, h.spaced.no_double, h.last⟩

theorem Tidy.right (h : Tidy (u ++ v)) (hv : v ≠ []) : Tidy v := by
  refine ⟨fun c hc => h.only_spaces c (List.mem_append_right u hc),
    (List.isChain_append.1 h.no_double).2.1, fun c hc => h.last c ?_⟩
  rw [List.getLast?_append_of_ne_nil u hv, hc]

theorem Tidy.words_ne_nil (h : Tidy t) (ht : t ≠ []) : Text.words t ≠ [] := by
  obtain ⟨a, c, rfl⟩ := (List.eq_nil_or_concat t).resolve_left ht
  rw [List.concat_eq_append] at h ⊢
  have hlast := h.last c List.getLast?_concat
  rw [Statement.isTerminator, Bool.or_eq_false_iff] at hlast
  intro hwords
  have hblank := Text.words_eq_nil_iff.1 hwords c
    (List.mem_append_right a (List.mem_singleton_self c))
  exact absurd hblank (by simp [hlast.2])

/-- A run of blanks in such a text is one space at most. -/
theorem nil_or_space (hall : ∀ c ∈ t, c = ' ') (hchain : t.IsChain fun c d => c = ' ' → d ≠ ' ') :
    t = [] ∨ t = [' '] := by
  match t with
  | [] => exact Or.inl rfl
  | [c] => exact Or.inr (by rw [hall c List.mem_cons_self])
  | c :: d :: r =>
    have hd := hall d (List.mem_cons_of_mem c List.mem_cons_self)
    rw [List.isChain_cons_cons] at hchain
    exact absurd hd (hchain.1 (hall c List.mem_cons_self))

/-- A part of a tidy text is a single-spaced text with at most one space at either end. -/
theorem padded_of_spaces (hspaces : ∀ c ∈ t, isBlank c = true → c = ' ')
    (hchain : t.IsChain fun c d => c = ' ' → d ≠ ' ') :
    ∃ p e, t = p ++ Text.trim t ++ e ∧ (p = [] ∨ p = [' ']) ∧ (e = [] ∨ e = [' ']) := by
  obtain ⟨u, e, hsplit, hstart, hend⟩ := Text.exists_trim t
  rw [hsplit] at hchain
  obtain ⟨hp, hrest, -⟩ := List.isChain_append.1 hchain
  have hmem : ∀ c ∈ u ++ e, c ∈ t := fun c hc => by
    rw [hsplit]
    exact (List.mem_append.1 hc).elim (List.mem_append_left _)
      fun hc => List.mem_append_right _ (List.mem_append_right _ hc)
  exact ⟨u, e, by rw [List.append_assoc]; exact hsplit,
    nil_or_space (fun c hc => hspaces c (hmem c (List.mem_append_left e hc)) (hstart c hc)) hp,
    nil_or_space (fun c hc => hspaces c (hmem c (List.mem_append_right u hc)) (hend c hc))
      (List.isChain_append.1 hrest).2.1⟩

theorem Tidy.padded (h : Tidy t) : ∃ p, t = p ++ Text.collapse t ∧ (p = [] ∨ p = [' ']) := by
  obtain ⟨p, e, htrim, hp, he⟩ := padded_of_spaces h.only_spaces h.no_double
  have hend : e = [] := by
    refine he.resolve_right ?_
    rintro rfl
    exact absurd (h.last ' ' (by rw [htrim, List.getLast?_concat])) (by decide)
  rw [Text.collapse_eq_trim (Text.singleSpaced_trim h.only_spaces h.no_double)]
  exact ⟨p, by rwa [hend, List.append_nil] at htrim, hp⟩

/-! ## Clauses of tidy texts -/

theorem nestingAfter_append (n : Nesting) (a b : Text) :
    nestingAfter n (a ++ b) = nestingAfter (nestingAfter n a) b :=
  List.foldl_append

/-- The text in front of a keyword is passed over as it is written, with a space for the layout
in front of the keyword. -/
theorem Passes.settle (hspaces : ∀ c ∈ u, isBlank c = true → c = ' ')
    (hchain : u.IsChain fun c d => c = ' ' → d ≠ ' ') (hpass : Passes k .top before u [])
    (hstart : Starts before u) (hopen : Keyword.mayStartAfter (lastOf before u) = true)
    (hlevel : nestingAfter .top u = .top) :
    Passes k .top (some ' ') (Text.spaced u) [] ∧ nestingAfter .top (Text.spaced u) = .top := by
  obtain ⟨p, e, hu, hp, he⟩ := padded_of_spaces hspaces hchain
  have hspaced := Text.singleSpaced_trim hspaces hchain
  by_cases hwords : Text.words u = []
  · rw [Text.spaced_eq_nil hwords]
    exact ⟨trivial, rfl⟩
  · obtain ⟨b, x, hb⟩ := (List.eq_nil_or_concat (Text.trim u)).resolve_left
      (mt Text.trim_eq_nil_iff.1 hwords)
    rw [List.concat_eq_append] at hb
    have hblank : isBlank x = false := hspaced.last_not_blank (by rw [hb, List.getLast?_concat])
    rw [Text.spaced_eq hwords, Text.collapse_eq_trim hspaced]
    -- a space in front of the body changes nothing
    have hbody : Passes k .top (some ' ') (Text.trim u ++ e) [] ∧
        nestingAfter .top (Text.trim u ++ e) = .top := by
      have hpassed := hpass.of_starts hstart
      rw [hu, List.append_assoc] at hpassed hlevel
      rcases hp with rfl | rfl
      · exact ⟨hpassed, hlevel⟩
      · exact ⟨hpassed.2, hlevel⟩
    rcases he with rfl | rfl
    · have hx : isIdentifierChar x = false := by
        have hlast : lastOf before u = some x := by
          rw [hu, hb, List.append_nil, ← List.append_assoc, lastOf, List.getLast?_concat]
          rfl
        rw [hlast, Keyword.mayStartAfter, Bool.and_eq_true] at hopen
        simpa using hopen.1
      rw [List.append_nil] at hbody
      obtain ⟨hpassed, hnest⟩ := hbody
      refine ⟨?_, by rw [nestingAfter_append, hnest]; rfl⟩
      rw [hb] at hpassed ⊢
      exact hpassed.concat_space hx hblank
    · exact hbody

/-- **The parts of a tidy text.** A tidy text is passed over whole as it is written, or up to a
place where a clause opens; the text in front of that place holds together as it is written, and
the one behind the keyword is tidy again. -/
theorem split_tidy (ht : Tidy t) (hstart : Starts before t) :
    (split k .top before 0 t = (t, []) ∧ Passes k .top (some ' ') (Text.collapse t) []) ∨
      ∃ u kind before' rest,
        split k .top before 0 t = (u, ⟨kind, Text.trim (split kind .top before' 0 rest).1⟩ ::
          (split kind .top before' 0 rest).2) ∧
        (Passes k .top (some ' ') (Text.spaced u) [] ∧ nestingAfter .top (Text.spaced u) = .top) ∧
        k.rank < kind.rank ∧ rest.length < t.length ∧ rest ≠ [] ∧ Tidy rest ∧
        Starts before' rest := by
  rcases split_cases k .top before t with
    hpass | ⟨u, v, kind, length, rfl, hpass, hclosing, htop, hopens⟩
  · refine Or.inl ⟨hpass.split_nil, ?_⟩
    have hpassed := hpass.of_starts hstart
    obtain ⟨p, hcollapse, hp⟩ := ht.padded
    rw [hcollapse] at hpassed
    rcases hp with rfl | rfl
    · exact hpassed
    · exact hpassed.2
  · right
    obtain ⟨hlt, hopen, w, d, r, rfl, hlength, hne, hw, -, hacc⟩ := exists_of_opens? hopens
    obtain ⟨c, w, rfl⟩ := List.exists_cons_of_ne_nil hne
    have hc : isIdentifierChar c = true := by
      obtain ⟨y, z, hcons, hy⟩ := head_of_opens? hopens
      rwa [(List.cons.inj hcons).1]
    have hnest := Nesting.eq_top_of_read hc hclosing (htop c rfl)
    have hread : Nesting.top.read c = .top := read_of_isIdentifierChar hc 0
    have hright : Tidy (d :: r) := by
      rw [← List.append_assoc] at ht
      exact ht.right (List.cons_ne_nil d r)
    refine ⟨u, kind, w.getLast?.or (some c), d :: r, ?_, ?_, hlt, ?_, List.cons_ne_nil d r, hright,
      Or.inr ⟨d, r, rfl, ClauseKind.isIdentifierChar_of_accepts hacc⟩⟩
    · have hsplit := hpass.split
      rw [hnest] at hsplit
      rw [List.cons_append] at hopens hsplit ⊢
      rw [hsplit, split_opening (n := .top) (hnest ▸ htop c rfl) rfl hopens, hread,
        ← hlength, List.length_cons, Nat.add_sub_cancel, split_skip, putFront, List.append_nil]
    · refine Passes.settle (fun x hx => ht.only_spaces x (List.mem_append_left _ hx))
        (List.isChain_append.1 ht.no_double).1 (Passes.of_append hpass) ?_ hopen hnest
      rcases hstart with hbefore | ⟨x, z, hx, hsign⟩
      · exact Or.inl hbefore
      · cases u with
        | nil => exact Or.inl hopen
        | cons y u =>
          obtain ⟨rfl, -⟩ := List.cons.inj hx
          exact Or.inr ⟨y, u, rfl, hsign⟩
    · simp only [List.length_append, List.length_cons]
      omega

theorem spaced_trim (u : Text) : Text.spaced (Text.trim u) = Text.spaced u := by
  rw [Text.spaced, Text.words_trim, Text.spaced]

theorem collapse_trim (u : Text) : Text.collapse (Text.trim u) = Text.collapse u := by
  rw [Text.collapse, Text.words_trim, Text.collapse]

theorem contained_trim (hpresent : k = .leading → Text.words u ≠ [])
    (hpass : Passes k .top (some ' ') (Text.spaced u) [])
    (hlevel : nestingAfter .top (Text.spaced u) = .top) : Contained ⟨k, Text.trim u⟩ := by
  refine ⟨fun h => ?_, ?_, ?_⟩
  · rw [Text.words_trim]
    exact hpresent h
  · rwa [spaced_trim]
  · rwa [spaced_trim]

theorem concluded_trim (ht : Tidy t) (hne : t ≠ [])
    (hpass : Passes k .top (some ' ') (Text.collapse t) []) : Concluded ⟨k, Text.trim t⟩ := by
  have hwords := ht.words_ne_nil hne
  refine ⟨?_, ?_, ?_⟩
  · rwa [Text.words_trim]
  · rwa [collapse_trim]
  · obtain ⟨p, hp, -⟩ := ht.padded
    have hcollapse : Text.collapse t ≠ [] := by
      intro h
      rw [← Text.words_collapse, h] at hwords
      exact hwords rfl
    rw [collapse_trim, ← List.getLast?_append_of_ne_nil p hcollapse, ← hp]
    intro hlast
    exact absurd (ht.last ';' hlast) (by decide)

/-- A clause of a tidy text, and those behind it, hold together by themselves. -/
theorem settled_split (hk : k ≠ .leading) (ht : Tidy t) (hne : t ≠ []) (hstart : Starts before t) :
    Settled (⟨k, Text.trim (split k .top before 0 t).1⟩ :: (split k .top before 0 t).2) := by
  induction hlength : t.length using Nat.strong_induction_on generalizing k before t with
  | _ m ih =>
    rcases split_tidy (k := k) ht hstart with
      ⟨hsplit, hpass⟩ | ⟨u, kind, before', rest, hsplit, ⟨hpass, hlevel⟩, hlt, hshorter, hrest,
        htidy, hstart'⟩
    · rw [hsplit]
      exact .last (concluded_trim ht hne hpass)
    · have hkind : kind ≠ .leading := by
        rintro rfl
        exact absurd hlt (Nat.not_lt_zero _)
      rw [hsplit]
      refine .cons (List.cons_ne_nil _ _) (contained_trim (fun h => absurd h hk) hpass hlevel) ?_
      exact ih rest.length (hlength ▸ hshorter) hkind htidy hrest hstart' rfl

/-- The clauses of a tidy text hold together by themselves. -/
theorem settled_clausesOf (ht : Tidy t) : Settled (clausesOf t) := by
  rw [clausesOf]
  rcases split_tidy (k := .leading) ht (Or.inl rfl : Starts none t) with
    ⟨hsplit, hpass⟩ | ⟨u, kind, before', rest, hsplit, ⟨hpass, hlevel⟩, hlt, -, hrest,
      htidy, hstart⟩
  · rw [hsplit]
    simp only [List.isEmpty_iff, Text.trim_eq_nil_iff]
    split
    · exact .nil
    · next hwords =>
      refine .last (concluded_trim ht ?_ hpass)
      rintro rfl
      exact hwords rfl
  · have hkind : kind ≠ .leading := by
      rintro rfl
      exact absurd hlt (Nat.not_lt_zero _)
    have hsettled := settled_split hkind htidy hrest hstart
    rw [hsplit]
    simp only [List.isEmpty_iff, Text.trim_eq_nil_iff]
    split
    · exact hsettled
    · next hwords =>
      exact .cons (List.cons_ne_nil _ _) (contained_trim (fun _ => hwords) hpass hlevel) hsettled

/-! ## Bodies of clauses -/

/-- The bodies of a text that is split are parts of it, trimmed. -/
theorem infix_split (k : ClauseKind) (n : Nesting) (before : Option Char) (skip : Nat) (t : Text) :
    (split k n before skip t).1 <+: t.drop skip ∧
      ∀ c ∈ (split k n before skip t).2, ∃ u, u <:+: t ∧ c.body = Text.trim u := by
  induction t generalizing k n before skip with
  | nil => cases skip <;> simp [split]
  | cons d t ih =>
    have hcons : ∀ {u : Text}, u <:+: t → u <:+: d :: t :=
      fun h => h.trans (List.suffix_cons d t).isInfix
    cases skip with
    | succ skip =>
      obtain ⟨hbody, hrest⟩ := ih k n (some d) skip
      exact ⟨hbody, fun c hc => (hrest c hc).imp fun u h => ⟨hcons h.1, h.2⟩⟩
    | zero =>
      rw [split]
      split
      · next kind length _ =>
        obtain ⟨hbody, hrest⟩ := ih kind (n.read d) (some d) (length - 1)
        refine ⟨List.nil_prefix, fun c hc => ?_⟩
        rcases List.mem_cons.1 hc with rfl | hc
        · exact ⟨_, hcons (hbody.isInfix.trans (List.drop_suffix _ t).isInfix), rfl⟩
        · exact (hrest c hc).imp fun u h => ⟨hcons h.1, h.2⟩
      · obtain ⟨hbody, hrest⟩ := ih k (n.read d) (some d) 0
        exact ⟨(List.prefix_cons_inj d).2 hbody,
          fun c hc => (hrest c hc).imp fun u h => ⟨hcons h.1, h.2⟩⟩

/-- In a single-spaced text the bodies are single-spaced. -/
theorem collapsed_clausesOf (ht : Text.SingleSpaced t) :
    (clausesOf t).map Clause.collapsed = clausesOf t := by
  obtain ⟨hbody, hrest⟩ := infix_split .leading .top none 0 t
  have hbodies : ∀ c ∈ clausesOf t, ∃ u, u <:+: t ∧ c.body = Text.trim u := by
    intro c hc
    rw [clausesOf] at hc
    split at hc
    · exact hrest c hc
    · rcases List.mem_cons.1 hc with rfl | hc
      · exact ⟨_, hbody.isInfix, rfl⟩
      · exact hrest c hc
  rw [List.map_congr_left (g := id) fun c hc => ?_, List.map_id]
  obtain ⟨u, ⟨x, y, rfl⟩, hu⟩ := hbodies c hc
  have hspaced : Text.SingleSpaced (Text.trim u) := by
    refine Text.singleSpaced_trim (fun d hd => ht.only_spaces d ?_) ?_
    · exact List.mem_append_left y (List.mem_append_right x hd)
    · exact (List.isChain_append.1 (List.isChain_append.1 ht.no_double).1).2.1
  rw [id_eq, Clause.collapsed, hu, Text.singleSpaced_iff.1 hspaced, ← hu]

/-! ## Statements in normal form -/

theorem bodyOf_isBody_semicolon {b : Text} (hb : Statement.IsBody b) : bodyOf (b ++ [';']) = b := by
  have hlast : ∀ c, b.getLast? = some c → (c == ';') = false ∧ isBlank c = false := fun c hc => by
    simpa [Statement.isTerminator] using hb.last c hc
  rw [bodyOf, (Statement.singleSpaced_body_semicolon hb).trim_eq_self,
    Text.dropEnd_concat_of_pos (by decide), Text.dropEnd_eq_self fun c hc => (hlast c hc).1]
  exact Text.dropEnd_eq_self fun c hc => (hlast c hc).2

/-- The outline of a body in normal form with its `;`. -/
theorem scan_isBody_semicolon {b : Text} (hb : Statement.IsBody b) :
    scan (b ++ [';']) = ⟨clausesOf b, true⟩ := by
  rw [← scan_terminated (Statement.singleSpaced_body_semicolon hb), ← bodyOf_isBody_semicolon hb,
    ← scan_clauses, bodyOf_isBody_semicolon hb]

/-- The clauses of a body in normal form are found again, as they are, in what is written for
them, and this is a body in normal form too. -/
theorem clausesOf_written_clausesOf {b : Text} (hb : Statement.IsBody b) :
    clausesOf (written (clausesOf b)) = clausesOf b ∧ Statement.IsBody (written (clausesOf b)) := by
  have hordered : Ordered (clausesOf b) := by
    have hscan := ordered_scan (b ++ [';'])
    rwa [scan_isBody_semicolon hb] at hscan
  have hsettled := settled_clausesOf (tidy_of_isBody hb)
  have hspaced := singleSpaced_written (clausesOf b)
  have hend := hsettled.written_end hordered
  have hfound := (clausesOf_written_iff hordered hend).2 hsettled
  rw [collapsed_clausesOf hb.spaced, collapsed_clausesOf hspaced] at hfound
  refine ⟨hfound, hspaced, fun c hc => ?_⟩
  rw [Statement.isTerminator, Bool.or_eq_false_iff]
  refine ⟨beq_eq_false_iff_ne.2 ?_, hspaced.last_not_blank hc⟩
  rintro rfl
  exact hend hc

/-- **Scanning is stable under writing.** The outline of a statement in normal form is the
outline of what is written for it: the same clauses with the same bodies, ended in the same way.
So what is written for a statement in normal form is written again as it is. -/
theorem scan_render_scan (sql : Text) :
    scan (scan (Statement.normalize sql)).render = scan (Statement.normalize sql) ∧
      (scan (scan (Statement.normalize sql)).render).render
        = (scan (Statement.normalize sql)).render := by
  have hb := Statement.isBody_bodyText sql
  obtain ⟨hfound, hwritten⟩ := clausesOf_written_clausesOf hb
  have hstable : scan (scan (Statement.normalize sql)).render = scan (Statement.normalize sql) := by
    change scan (scan (Statement.bodyText sql ++ [';'])).render
      = scan (Statement.bodyText sql ++ [';'])
    rw [scan_isBody_semicolon hb, render_eq, if_pos rfl, scan_isBody_semicolon hwritten, hfound]
  exact ⟨hstable, congrArg render hstable⟩

end Outline

end SqlScribe
