import SqlScribe.Proofs.Text.Words

/-!
# Runs of blanks written as one space

What squeezing keeps of a text: it goes run by run, so texts that are squeezed to the same text can
be read side by side. Main statements:

* `laidOut`: a text is built from characters that are not blank and from runs of blanks;
* `squeeze_append_of_runEnds`, `squeeze_append_congr`: squeezing goes part by part;
* `squeeze_trim`, `squeeze_dropEnd`: it may be done before or after the ends of a text are dropped.
-/

namespace SqlScribe

/-- The character, or a space for any blank. -/
def asSpace (c : Char) : Char := if isBlank c then ' ' else c

theorem asSpace_of_blank {c : Char} (h : isBlank c = true) : asSpace c = ' ' := if_pos h

theorem asSpace_of_not_blank {c : Char} (h : isBlank c = false) : asSpace c = c :=
  if_neg (by simp [h])

theorem map_asSpace_of_not_blank {o : Option Char} (h : ∀ c, o = some c → isBlank c = false) :
    o.map asSpace = o := by
  cases o with
  | none => rfl
  | some c => exact congrArg some (asSpace_of_not_blank (h c rfl))

@[simp] theorem isBlank_asSpace (c : Char) : isBlank (asSpace c) = isBlank c := by
  unfold asSpace
  split
  · next h => rw [h]; decide
  · rfl

namespace Text

variable {a b t : Text} {c : Char}

/-! ## Characters and runs -/

/-- No run of blanks goes on from the character `b` into the text. -/
def RunEnds (b : Option Char) (t : Text) : Prop :=
  b.any isBlank = true → t.head?.any isBlank = false

theorem runEnds_of_not_blank {b : Option Char} (h : b.any isBlank = false) : RunEnds b t :=
  fun hb => absurd hb (by simp [h])

theorem runEnds_of_head {b : Option Char} (h : t.head?.any isBlank = false) : RunEnds b t :=
  fun _ => h

theorem not_blank_of_head (h : t.head?.any isBlank = false) :
    ∀ c, t.head? = some c → isBlank c = false := by
  intro c hc
  rw [hc] at h
  exact h

/-- Behind the longest beginning of characters in `f` stands one that is not. -/
theorem not_of_head?_dropWhile {f : Char → Bool} {t : Text} {y : Char}
    (h : (t.dropWhile f).head? = some y) : f y = false := by
  have hnot := List.head?_dropWhile_not f t
  rw [h] at hnot
  exact hnot

/-- How a text is laid out: characters that are not blank and whole runs of blanks. -/
inductive LaidOut : Text → Prop
  | nil : LaidOut []
  | char {c : Char} {t : Text} (hc : isBlank c = false) (ht : LaidOut t) : LaidOut (c :: t)
  | run {g t : Text} (hne : g ≠ []) (hg : ∀ c ∈ g, isBlank c = true)
      (hhead : t.head?.any isBlank = false)
      (ht : LaidOut t) : LaidOut (g ++ t)

theorem laidOut (t : Text) : LaidOut t := by
  induction hn : t.length using Nat.strong_induction_on generalizing t with
  | _ n ih =>
    cases t with
    | nil => exact .nil
    | cons c r =>
      cases hc : isBlank c with
      | false => exact .char hc (ih r.length (by simp [← hn]) r rfl)
      | true =>
        have hrun : LaidOut ((c :: r).takeWhile isBlank ++ (c :: r).dropWhile isBlank) := by
          refine .run (by simp [hc]) (List.all_eq_true.1 List.all_takeWhile) ?_ (ih _ ?_ _ rfl)
          · cases hd : ((c :: r).dropWhile isBlank).head? with
            | none => rfl
            | some d => exact not_of_head?_dropWhile hd
          · have hle := (List.dropWhile_sublist isBlank (l := r)).length_le
            rw [List.dropWhile_cons_of_pos hc, ← hn, List.length_cons]
            omega
        rwa [List.takeWhile_append_dropWhile] at hrun

/-! ## Squeezing part by part -/

@[simp] theorem squeeze_nil : squeeze [] = [] := rfl

theorem squeeze_cons_of_not_blank (hc : isBlank c = false) (t : Text) :
    squeeze (c :: t) = c :: squeeze t := by
  simp [squeeze, hc]

theorem squeeze_cons_of_blank (hc : isBlank c = true) (ht : t.head?.any isBlank = false) :
    squeeze (c :: t) = ' ' :: squeeze t := by
  simp [squeeze, hc, ht]

/-- A run of blanks becomes one space. -/
theorem squeeze_run {g : Text} (hne : g ≠ []) (hg : ∀ c ∈ g, isBlank c = true)
    (ht : t.head?.any isBlank = false) : squeeze (g ++ t) = ' ' :: squeeze t := by
  induction g with
  | nil => exact absurd rfl hne
  | cons c g ih =>
    obtain ⟨hc, hg⟩ := List.forall_mem_cons.1 hg
    cases g with
    | nil => exact squeeze_cons_of_blank hc ht
    | cons d g =>
      have hd : isBlank d = true := hg d List.mem_cons_self
      rw [← ih (List.cons_ne_nil d g) hg, List.cons_append, squeeze]
      simp [hc, hd]

@[simp] theorem head?_squeeze (t : Text) : (squeeze t).head? = t.head?.map asSpace := by
  cases laidOut t with
  | nil => rfl
  | char hc ht => simp [squeeze_cons_of_not_blank hc, asSpace_of_not_blank hc]
  | @run g t hne hg hhead ht =>
    obtain ⟨d, g, rfl⟩ := List.exists_cons_of_ne_nil hne
    rw [squeeze_run hne hg hhead]
    simp [asSpace_of_blank (hg d List.mem_cons_self)]

theorem any_asSpace (b : Option Char) : (b.map asSpace).any isBlank = b.any isBlank := by
  cases b <;> simp

theorem head?_squeeze_any (t : Text) : (squeeze t).head?.any isBlank = t.head?.any isBlank := by
  rw [head?_squeeze, any_asSpace]

/-- Where no run of blanks goes from one text into the next, each is squeezed by itself. -/
theorem squeeze_append_of_runEnds (h : RunEnds a.getLast? b) :
    squeeze (a ++ b) = squeeze a ++ squeeze b := by
  refine squeeze_append ?_
  cases hlast : a.getLast?.any isBlank with
  | false => exact Or.inl (fun c hc => by rw [hc] at hlast; exact hlast)
  | true => exact Or.inr (not_blank_of_head (h hlast))

@[simp] theorem getLast?_squeeze (t : Text) : (squeeze t).getLast? = t.getLast?.map asSpace := by
  induction t using List.reverseRecOn with
  | nil => rfl
  | append_singleton t c ih =>
    rw [List.getLast?_concat]
    by_cases h : RunEnds t.getLast? [c]
    · rw [squeeze_append_of_runEnds h]
      have hone : squeeze [c] = [asSpace c] := by
        cases hc : isBlank c with
        | true => simp [squeeze, hc, asSpace_of_blank hc]
        | false => simp [squeeze, hc, asSpace_of_not_blank hc]
      rw [hone, List.getLast?_concat]
      rfl
    · obtain ⟨hlast, hc⟩ : t.getLast?.any isBlank = true ∧ isBlank c = true := by
        simpa [RunEnds, Classical.not_imp] using h
      obtain ⟨u, d, rfl⟩ := (List.eq_nil_or_concat t).resolve_left (by rintro rfl; simp at hlast)
      have hd : isBlank d = true := by simpa using hlast
      -- the run in front of the last character is squeezed together with it
      have hsame : ∀ u : Text, squeeze (u ++ [d, c]) = squeeze (u ++ [d]) := by
        intro u
        induction u with
        | nil => simp [squeeze, hc, hd]
        | cons e u ihu =>
          have hhead : (u ++ [d, c]).head? = (u ++ [d]).head? := by cases u <;> rfl
          rw [List.cons_append, List.cons_append, squeeze, squeeze.eq_2 e (u ++ [d]), ihu, hhead]
      rw [List.concat_eq_append] at ih ⊢
      rw [List.append_assoc]
      refine (congrArg List.getLast? (hsame u)).trans (ih.trans ?_)
      simp [asSpace_of_blank hc, asSpace_of_blank hd]

theorem squeeze_eq_self (h : ∀ c ∈ t, isBlank c = false) : squeeze t = t := by
  induction t with
  | nil => rfl
  | cons c t ih =>
    obtain ⟨hc, ht⟩ := List.forall_mem_cons.1 h
    rw [squeeze_cons_of_not_blank hc, ih ht]

@[simp] theorem squeeze_eq_nil_iff : squeeze t = [] ↔ t = [] := by
  rw [← List.head?_eq_none_iff, head?_squeeze, Option.map_eq_none_iff, List.head?_eq_none_iff]

@[simp] theorem squeeze_squeeze (t : Text) : squeeze (squeeze t) = squeeze t := by
  induction laidOut t with
  | nil => rfl
  | char hc ht ih => rw [squeeze_cons_of_not_blank hc, squeeze_cons_of_not_blank hc, ih]
  | @run g t hne hg hhead ht ih =>
    rw [squeeze_run hne hg hhead, squeeze_cons_of_blank (by decide) (by rwa [head?_squeeze_any]),
      ih]

theorem squeeze_cons_squeeze (c : Char) (t : Text) :
    squeeze (c :: squeeze t) = squeeze (c :: t) := by
  rw [squeeze, squeeze.eq_2 c t, head?_squeeze_any, squeeze_squeeze]

theorem squeeze_append_squeeze (a b : Text) : squeeze (a ++ squeeze b) = squeeze (a ++ b) := by
  induction a with
  | nil => exact squeeze_squeeze b
  | cons c a ih =>
    rw [List.cons_append, List.cons_append, ← squeeze_cons_squeeze, ih, squeeze_cons_squeeze]

theorem squeeze_squeeze_append (a b : Text) : squeeze (squeeze a ++ b) = squeeze (a ++ b) := by
  induction a with
  | nil => rfl
  | cons c a ih =>
    rw [squeeze]
    split
    · next hc =>
      split
      · next hhead =>
        -- a blank in front of another one is dropped
        rw [ih, List.cons_append, squeeze.eq_2 c, if_pos hc, if_pos]
        cases a with
        | nil => exact absurd hhead (by simp)
        | cons d a => exact hhead
      · next hhead =>
        have hsq : (squeeze a ++ b).head?.any isBlank = (a ++ b).head?.any isBlank := by
          cases a with
          | nil => rfl
          | cons d a =>
            rw [List.head?_append_of_ne_nil _ (by simp), head?_squeeze_any]
            rfl
        rw [List.cons_append, List.cons_append, squeeze.eq_2 ' ', squeeze.eq_2 c,
          if_pos (by decide), if_pos hc, ih, hsq]
    · next hc =>
      rw [List.cons_append, List.cons_append, squeeze_cons_of_not_blank (by simpa using hc),
        squeeze_cons_of_not_blank (by simpa using hc), ih]

/-- Of two parts only matters what they are squeezed to. -/
theorem squeeze_append_congr {a' b' : Text} (ha : squeeze a = squeeze a')
    (hb : squeeze b = squeeze b') :
    squeeze (a ++ b) = squeeze (a' ++ b') := by
  rw [← squeeze_squeeze_append, ← squeeze_append_squeeze, ha, hb, squeeze_append_squeeze,
    squeeze_squeeze_append]

theorem squeeze_join_congr {sep : Text} {ss us : List Text} (h : ss.map squeeze = us.map squeeze) :
    squeeze (join sep ss) = squeeze (join sep us) := by
  induction ss generalizing us with
  | nil => rw [List.map_eq_nil_iff.1 h.symm]
  | cons s ss ih =>
    cases us with
    | nil => exact absurd h (by simp)
    | cons u us =>
      obtain ⟨hs, hss⟩ := List.cons.inj h
      cases ss with
      | nil =>
        obtain rfl := List.map_eq_nil_iff.1 hss.symm
        exact hs
      | cons s' ss =>
        have hne : us ≠ [] := by rintro rfl; exact absurd hss (by simp)
        rw [join_cons sep s (List.cons_ne_nil s' ss), join_cons sep u hne]
        exact squeeze_append_congr (squeeze_append_congr hs rfl) (ih hss)

theorem not_blank_of_squeeze (h : ∀ c ∈ squeeze t, isBlank c = false) :
    ∀ c ∈ t, isBlank c = false := by
  induction laidOut t with
  | nil => simp
  | char hc ht ih =>
    rw [squeeze_cons_of_not_blank hc] at h
    exact List.forall_mem_cons.2 ⟨hc, ih fun d hd => h d (List.mem_cons_of_mem _ hd)⟩
  | run hne hg hhead ht ih =>
    rw [squeeze_run hne hg hhead] at h
    exact absurd (h ' ' List.mem_cons_self) (by decide)

/-! ## Ends of a text -/

/-- Behind trimming there is nothing to squeeze but what collapsing squeezes. -/
theorem squeeze_trim (t : Text) : squeeze (trim t) = collapse t := by
  have hends : trim (squeeze (trim t)) = squeeze (trim t) := by
    refine trim_eq_self (fun c hc => ?_) fun c hc => ?_
    · rw [head?_squeeze] at hc
      obtain ⟨d, hd, rfl⟩ := Option.map_eq_some_iff.1 hc
      rw [isBlank_asSpace, head?_trim hd]
    · rw [getLast?_squeeze] at hc
      obtain ⟨d, hd, rfl⟩ := Option.map_eq_some_iff.1 hc
      rw [isBlank_asSpace, getLast?_trim hd]
  rw [← hends, ← collapse_eq_trim_squeeze, collapse, collapse, words_trim]

theorem trim_squeeze (t : Text) : trim (squeeze t) = squeeze (trim t) := by
  rw [squeeze_trim, collapse_eq_trim_squeeze]

/-- The only word of a text stands between blanks. -/
theorem words_eq_singleton_iff {w : Text} :
    words t = [w] ↔ ∃ a b, t = a ++ w ++ b ∧ (∀ c ∈ a, isBlank c = true) ∧ IsWord w ∧
      ∀ c ∈ b, isBlank c = true := by
  constructor
  · intro h
    have hw : IsWord w := isWord_of_mem_words (h ▸ List.mem_singleton_self w)
    have hsq : squeeze (trim t) = w := by rw [squeeze_trim, collapse, h, join]
    have htrim : trim t = w := by
      rw [← hsq, squeeze_eq_self (not_blank_of_squeeze fun c hc => hw.2 c (hsq ▸ hc))]
    obtain ⟨a, b, ht, ha, hb⟩ := exists_trim t
    exact ⟨a, b, by rw [List.append_assoc, ← htrim, ← ht], ha, hw, hb⟩
  · rintro ⟨a, b, rfl, ha, hw, hb⟩
    rw [words_append_of_head (fun c hc => hb c (List.mem_of_mem_head? hc)),
      words_append_of_last (fun c hc => ha c (List.mem_of_mem_getLast? hc)), words_of_isWord hw,
      words_eq_nil_iff.2 ha, words_eq_nil_iff.2 hb]
    rfl

/-- An ending of characters that are not blank is dropped before or after squeezing. -/
theorem squeeze_dropEnd {p : Char → Bool} (hp : ∀ c, p c = true → isBlank c = false) (t : Text) :
    squeeze (dropEnd p t) = dropEnd p (squeeze t) := by
  induction t using List.reverseRecOn with
  | nil => rfl
  | append_singleton t c ih =>
    cases hc : p c with
    | true =>
      have hblank := hp c hc
      have hsplit : squeeze (t ++ [c]) = squeeze t ++ [c] := by
        rw [squeeze_append_of_runEnds (runEnds_of_head (by simpa using hblank)),
          squeeze_cons_of_not_blank hblank]
        rfl
      rw [dropEnd_concat_of_pos hc, hsplit, dropEnd_concat_of_pos hc, ih]
    | false =>
      rw [dropEnd_concat_of_neg hc, dropEnd_eq_self fun d hd => ?_]
      rw [getLast?_squeeze, List.getLast?_concat, Option.map_some] at hd
      obtain rfl := Option.some.inj hd
      cases hblank : isBlank c with
      | false => rw [asSpace_of_not_blank hblank, hc]
      | true =>
        rw [asSpace_of_blank hblank]
        by_contra hspace
        exact absurd (hp ' ' (by simpa using hspace)) (by decide)

theorem squeeze_trimEnd (t : Text) : squeeze (trimEnd t) = trimEnd (squeeze t) := by
  obtain ⟨e, he, hblank⟩ := dropEnd_append_ending isBlank t
  have hlast : ∀ c, (dropEnd isBlank t).getLast? = some c → isBlank c = false :=
    fun c hc => getLast?_dropEnd hc
  have hsplit : squeeze t = squeeze (trimEnd t) ++ squeeze e := by
    conv_lhs => rw [he]
    exact squeeze_append (Or.inl hlast)
  have hspaces : ∀ c ∈ squeeze e, isBlank c = true := fun c hc =>
    (mem_of_mem_squeeze hc).elim (fun h => h ▸ by decide) (hblank c)
  rw [hsplit, trimEnd, trimEnd, dropEnd_append_of_all hspaces]
  refine (dropEnd_eq_self fun c hc => ?_).symm
  rw [getLast?_squeeze] at hc
  obtain ⟨d, hd, rfl⟩ := Option.map_eq_some_iff.1 hc
  rw [isBlank_asSpace, getLast?_dropEnd hd]

end Text

end SqlScribe
