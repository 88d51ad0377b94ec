import Mathlib.Data.List.Nodup
import SqlScribe.Proofs.Expression.Translation
import SqlScribe.Proofs.Pattern.Walk
import SqlScribe.Proofs.Text.Case

/-!
# Rules for the calls of functions

The patterns of the rules for calls: they open with the name of a function, and those that take a
whole call close with the first parenthesis behind it, which is why they find no call with a call
among its arguments. Main statements:

* `OpensWith.calling`: where the matches of such patterns begin;
* `Tight.atoms_of_matchAt?`: a pattern of a whole call finds calls without calls in them only;
* `CallRule.sound_renameTo`, `CallRule.sound_idle`, `CallRule.Replaces.sound`: rules that are
  maps of trees.
-/

namespace SqlScribe

open SqlScribe.Expr

/-! ## Letters in any case -/

namespace Expr

theorem isBlank_of_isLabelChar {c : Char} (h : isLabelChar c = true) : isBlank c = false := by
  rw [isLabelChar, Bool.or_eq_true, beq_iff_eq] at h
  rcases h with h | rfl
  · exact isBlank_of_isAlpha h
  · decide

theorem paren_not_mem_of_label {g : Text} (hg : ∀ c ∈ g, isLabelChar c = true) : '(' ∉ g :=
  fun h => absurd (hg _ h) (by decide)

end Expr

namespace Pattern

/-- What has the form of a letter of a name is a character of words. -/
theorem isWordChar_of_simpleFold {c y : Char} (h : simpleFold c = simpleFold y)
    (hy : isLabelChar y = true) : isWordChar c = true := by
  refine isWordChar_of_isLabelChar_simpleFold ?_
  rw [h, simpleFold_of_isLabelChar hy, isLabelChar_toLower]
  exact hy

theorem SameLetters.isWordChar {g n : Text} (h : SameLetters g n)
    (hn : ∀ c ∈ n, isLabelChar c = true) : ∀ c ∈ g, isWordChar c = true := by
  intro c hc
  have hmem : simpleFold c ∈ n.map simpleFold := h ▸ List.mem_map_of_mem hc
  obtain ⟨y, hy, hfold⟩ := List.mem_map.1 hmem
  exact isWordChar_of_simpleFold hfold.symm (hn y hy)

theorem SameLetters.ne_nil {g n : Text} (h : SameLetters g n) (hn : n ≠ []) : g ≠ [] := by
  rintro rfl
  exact hn (List.map_eq_nil_iff.1 h.symm)

/-- Names are written alike when they are the same in lower case. -/
theorem sameLetters_iff {g n : Text} (hg : ∀ c ∈ g, isLabelChar c = true)
    (hn : ∀ c ∈ n, isLabelChar c = true) : SameLetters g n ↔ g.asciiLower = n.asciiLower := by
  rw [SameLetters, List.map_congr_left fun c hc => simpleFold_of_isLabelChar (hg c hc),
    List.map_congr_left fun c hc => simpleFold_of_isLabelChar (hn c hc)]
  rfl

/-- The match of the opening of a call. -/
theorem matchAt?_opening {g n : Text} (hsame : SameLetters g n) (hne : n ≠ [])
    (hn : ∀ c ∈ n, isLabelChar c = true) {b : Option Char} (hb : b.any isWordChar = false)
    (r : Text) : (opening n).matchAt? b (g ++ ['('] ++ r) = some ⟨b, g ++ ['('], [], r⟩ := by
  have hfirst : (opening n).first ⟨b, g ++ ['('] ++ r, []⟩ some = some ⟨some '(', r, []⟩ := by
    rw [List.append_assoc]
    exact first_opening (e := []) hsame (hsame.ne_nil hne) (hsame.isWordChar hn) (by simp) hb r
  exact matchAt?_of_first hfirst (by simp)

end Pattern

/-! ## Patterns that open with a name -/

/-- A character that stands behind two texts without it stands behind the same text. -/
theorem Text.eq_of_append_cons_eq {u v r s : Text} {c : Char} (hu : c ∉ u) (hv : c ∉ v)
    (h : u ++ c :: r = v ++ c :: s) : u = v ∧ r = s := by
  induction u generalizing v with
  | nil =>
    cases v with
    | nil => exact ⟨rfl, (List.cons.inj h).2⟩
    | cons d v => exact absurd ((List.cons.inj h).1 ▸ List.mem_cons_self) hv
  | cons d u ih =>
    cases v with
    | nil => exact absurd ((List.cons.inj h).1 ▸ List.mem_cons_self) hu
    | cons e v =>
      obtain ⟨rfl, hrest⟩ := List.cons.inj h
      obtain ⟨rfl, rfl⟩ := ih (fun hc => hu (List.mem_cons_of_mem d hc))
        (fun hc => hv (List.mem_cons_of_mem d hc)) hrest
      exact ⟨rfl, rfl⟩

/-- Every match begins a word with one of the names, in any case, and goes on with a parenthesis,
blanks in front of it. -/
structure OpensWith (p : Pattern) (names : List Text) : Prop where
  edge : p.beginsAt .wordEdge = true
  labels : ∀ n ∈ names, n ≠ [] ∧ ∀ c ∈ n, isLabelChar c = true
  spells : ∀ {u : Text}, p.Spells u → ∃ n ∈ names, ∃ g e x, u = g ++ e ++ '(' :: x ∧
    Pattern.SameLetters g n ∧ ∀ c ∈ e, isBlank c = true

namespace OpensWith

variable {p q : Pattern} {names : List Text} {b : Option Char} {m : Match} {g r : Text}

theorem opening {n : Text} (hne : n ≠ []) (hn : ∀ c ∈ n, isLabelChar c = true) :
    OpensWith (Pattern.opening n) [n] := by
  refine ⟨rfl, fun x hx => ?_, fun {u} hu => ?_⟩
  · obtain rfl := List.mem_singleton.1 hx
    exact ⟨hne, hn⟩
  · obtain ⟨g, e, rfl, hg, he⟩ := Pattern.of_spells_opening hu
    exact ⟨n, List.mem_singleton_self n, g, e, [], (List.append_assoc _ _ _).symm, hg, he⟩

theorem append (h : OpensWith p names) (q : Pattern) : OpensWith (p ++ q) names := by
  refine ⟨h.edge, h.labels, fun {u} hu => ?_⟩
  obtain ⟨v, w, rfl, hv, -⟩ := hu
  obtain ⟨n, hn, g, e, x, rfl, hg, he⟩ := h.spells hv
  exact ⟨n, hn, g, e, x ++ w, by simp, hg, he⟩

/-- In front of the parenthesis of a match stand a name and blanks. -/
theorem exists_front (h : OpensWith p names) (hm : p.Spells m.text) :
    ∃ n ∈ names, ∃ g e x, m.text = g ++ e ++ '(' :: x ∧ Pattern.SameLetters g n ∧ g ≠ [] ∧
      (∀ c ∈ g, isWordChar c = true) ∧ ∀ c ∈ e, isBlank c = true := by
  obtain ⟨n, hn, g, e, x, htext, hg, he⟩ := h.spells hm
  obtain ⟨hne, hlabels⟩ := h.labels n hn
  exact ⟨n, hn, g, e, x, htext, hg, hg.ne_nil hne, hg.isWordChar hlabels, he⟩

/-- No match begins within a word. -/
theorem matchAt?_inside (h : OpensWith p names) {x y : Char} (hx : isWordChar x = true)
    (hy : isWordChar y = true) (t : Text) : p.matchAt? (some x) (y :: t) = none := by
  by_contra hne
  obtain ⟨m, hm⟩ := Option.ne_none_iff_exists'.1 hne
  have hedge := (Pattern.isOf_of_matchAt? hm).holds .wordEdge h.edge
  simp [Anchor.holds, hx, hy] at hedge

theorem calling (h : OpensWith p names) : Calling p where
  reads := by
    intro m b t hm
    obtain ⟨n, -, g, e, x, htext, -, hne, hword, he⟩ := h.exists_front hm.spells
    refine ⟨g ++ e, x ++ m.after, ?_, List.append_ne_nil_of_left_ne_nil hne e, fun c hc => ?_⟩
    · rw [← hm.text_append, htext]
      simp
    · exact (List.mem_append.1 hc).imp (hword c) (he c)
  inside := by
    intro b c g t hb hg
    exact h.matchAt?_inside hb (isWordChar_of_isLabelChar (hg c List.mem_cons_self)) _
  spaced := by
    intro b g t _
    by_contra hne
    obtain ⟨m, hm⟩ := Option.ne_none_iff_exists'.1 hne
    have hof := Pattern.isOf_of_matchAt? hm
    obtain ⟨n, -, v, e, x, htext, -, hv, hword, -⟩ := h.exists_front hof.spells
    obtain ⟨d, v, rfl⟩ := List.exists_cons_of_ne_nil hv
    have happ := hof.text_append
    rw [htext] at happ
    obtain ⟨rfl, -⟩ := List.cons.inj happ
    exact absurd (hword ' ' List.mem_cons_self) (by decide)

/-- A match at the name of a call is one of the names of the pattern. -/
theorem exists_name (h : OpensWith p names) (hg : ∀ c ∈ g, isLabelChar c = true)
    (hm : p.matchAt? b (g ++ '(' :: r) = some m) : ∃ n ∈ names, g.asciiLower = n.asciiLower := by
  have hof := Pattern.isOf_of_matchAt? hm
  obtain ⟨n, hn, v, e, x, htext, hv, -, hword, he⟩ := h.exists_front hof.spells
  have happ := hof.text_append
  have hfront : '(' ∉ v ++ e := by
    intro hc
    rcases List.mem_append.1 hc with hc | hc
    · exact absurd (hword _ hc) (by decide)
    · exact absurd (he _ hc) (by decide)
  rw [htext, List.append_assoc, List.cons_append] at happ
  obtain ⟨hname, -⟩ := Text.eq_of_append_cons_eq hfront (paren_not_mem_of_label hg) happ
  -- no blank stands in a name
  obtain rfl : e = [] := by
    refine List.eq_nil_iff_forall_not_mem.2 fun c hc => ?_
    have hblank := isBlank_of_isLabelChar (hg c (hname ▸ List.mem_append_right v hc))
    exact absurd (he c hc) (by simp [hblank])
  rw [List.append_nil] at hname
  exact ⟨n, hn, (Pattern.sameLetters_iff hg (h.labels n hn).2).1 (hname ▸ hv)⟩

end OpensWith

/-! ## Patterns of whole calls -/

/-- Every match is a whole call without parentheses among its arguments, which are as `fits`
says. -/
structure Tight (p : Pattern) (names : List Text) (fits : Text → Prop) : Prop
    extends OpensWith p names where
  closes : ∀ {u : Text}, p.Spells u → ∃ v x, u = v ++ '(' :: (x ++ [')']) ∧ '(' ∉ v ∧
    (∀ c ∈ x, Pattern.noParen.has c = true) ∧ fits x

theorem Expr.Plain.noParen {t : Text} (h : Plain t) {c : Char} (hc : c ∈ t) :
    Pattern.noParen.has c = true := by
  have hmark := h.marks c hc
  simp only [List.mem_cons, not_or] at hmark
  simp [Pattern.noParen, CharClass.has, hmark.1, hmark.2.1]

/-- Arguments without parentheses make a list without parentheses. -/
theorem Expr.noParen_join {ts : List Text} (hts : ∀ t ∈ ts, Plain t) {c : Char}
    (hc : c ∈ Text.join [',', ' '] ts) : Pattern.noParen.has c = true := by
  rcases Text.mem_join hc with hc | ⟨t, ht, hc⟩
  · exact List.all_eq_true.1 (show [',', ' '].all Pattern.noParen.has = true by decide) c hc
  · exact (hts t ht).noParen hc

/-- The parts are plain texts, or there is an opening parenthesis in front of all others. -/
theorem Expr.atoms_or_split (name : Text) {parts : List Expr} (h : ∀ e ∈ parts, e.Formed) :
    (∃ ts : List Text, parts = ts.map atom ∧ ∀ t ∈ ts, Plain t) ∨
      ∃ y z, Text.join (separator name) (parts.map write) = y ++ '(' :: z ∧
        ∀ c ∈ y, Pattern.noParen.has c = true := by
  induction parts with
  | nil => exact Or.inl ⟨[], rfl, by simp⟩
  | cons e es ih =>
    have hsep : ∀ c ∈ separator name, Pattern.noParen.has c = true := by
      rw [separator]
      split <;> decide
    cases h e List.mem_cons_self with
    | @node g parts hg _ =>
      -- the first part is a call
      refine Or.inr ⟨g, ?_⟩
      have hname : ∀ c ∈ g, Pattern.noParen.has c = true := by
        intro c hc
        have hlabel := hg c hc
        by_contra hparen
        have hmem : ¬ c = '(' → c = ')' := by simpa [Pattern.noParen, CharClass.has] using hparen
        by_cases hopen : c = '('
        · exact absurd (hopen ▸ hlabel) (by decide)
        · exact absurd (hmem hopen ▸ hlabel) (by decide)
      cases es with
      | nil =>
        refine ⟨Text.join (separator g) (parts.map write) ++ [')'], ?_, hname⟩
        rw [List.map_singleton, Text.join, write_node]
      | cons d ds =>
        refine ⟨Text.join (separator g) (parts.map write) ++ ')' :: (separator name ++
          Text.join (separator name) ((d :: ds).map write)), ?_, hname⟩
        rw [List.map_cons, Text.join_cons _ _ (by simp), write_node]
        simp
    | @atom t ht =>
      rcases ih fun x hx => h x (List.mem_cons_of_mem _ hx) with
        ⟨ts, rfl, hts⟩ | ⟨y, z, hsplit, hy⟩
      · refine Or.inl ⟨t :: ts, rfl, fun u hu => ?_⟩
        rcases List.mem_cons.1 hu with rfl | hu
        · exact ht
        · exact hts u hu
      · refine Or.inr ⟨t ++ separator name ++ y, z, ?_, fun c hc => ?_⟩
        · cases es with
          | nil => exact absurd hsplit (by simp [Text.join])
          | cons d ds =>
            rw [List.map_cons, Text.join_cons _ _ (by simp), hsplit, write]
            simp
        · rcases List.mem_append.1 hc with hc | hc
          · exact (List.mem_append.1 hc).elim ht.noParen (hsep c)
          · exact hy c hc

namespace Tight

variable {p : Pattern} {names : List Text} {fits : Text → Prop} {b : Option Char} {m : Match}
  {g r : Text} {parts : List Expr}

/-- What a pattern spells decides whether it is one of whole calls. -/
theorem of_spells {q : Pattern} (h : Tight q names fits) (hedge : p.beginsAt .wordEdge = true)
    (hpq : ∀ {u : Text}, p.Spells u → q.Spells u) : Tight p names fits :=
  ⟨⟨hedge, h.labels, fun hu => h.spells (hpq hu)⟩, fun hu => h.closes (hpq hu)⟩

/-- **A call with a call among its arguments is not found.** -/
theorem atoms_of_matchAt? (h : Tight p names fits) (hform : (node g parts).Formed) (hne : g ≠ [])
    (hm : p.matchAt? b ((node g parts).write ++ r) = some m) :
    (∃ n ∈ names, g.asciiLower = n.asciiLower) ∧
      ∃ ts : List Text, parts = ts.map atom ∧ (∀ t ∈ ts, Plain t) ∧
        fits (Text.join [',', ' '] ts) := by
  cases hform with
  | node hg hforms =>
  rw [write_node_append, List.append_assoc, List.singleton_append] at hm
  refine ⟨h.exists_name hg hm, ?_⟩
  have hof := Pattern.isOf_of_matchAt? hm
  obtain ⟨v, x, htext, hv, hx, hfits⟩ := h.closes hof.spells
  have happ := hof.text_append
  rw [htext, List.append_assoc, List.cons_append] at happ
  obtain ⟨-, hinner⟩ := Text.eq_of_append_cons_eq hv (paren_not_mem_of_label hg) happ
  rw [List.append_assoc, List.singleton_append] at hinner
  have hparen : ∀ {y : Text} {c : Char}, (∀ d ∈ y, Pattern.noParen.has d = true) →
      Pattern.noParen.has c = false → c ∉ y := by
    intro y c hy hc hmem
    exact absurd (hy c hmem) (by simp [hc])
  have hsep : separator g = [',', ' '] := if_neg (by simpa using hne)
  rcases atoms_or_split g hforms with ⟨ts, rfl, hts⟩ | ⟨y, z, hsplit, hy⟩
  · refine ⟨ts, rfl, hts, ?_⟩
    rw [map_write_atom, hsep] at hinner
    obtain ⟨rfl, -⟩ := Text.eq_of_append_cons_eq (hparen hx (by decide))
      (hparen (fun _ => noParen_join hts) (by decide)) hinner
    exact hfits
  · -- the first parenthesis behind the name opens another call
    rw [hsplit, List.append_assoc, List.cons_append] at hinner
    rcases List.append_eq_append_iff.1 hinner with ⟨w, rfl, hw⟩ | ⟨w, rfl, hw⟩
    · cases w with
      | nil => exact absurd (List.cons.inj hw).1 (by decide)
      | cons d w =>
        obtain ⟨rfl, -⟩ := List.cons.inj hw
        exact absurd (List.mem_append_right x List.mem_cons_self) (hparen hy (by decide))
    · cases w with
      | nil => exact absurd (List.cons.inj hw).1 (by decide)
      | cons d w =>
        obtain ⟨rfl, -⟩ := List.cons.inj hw
        exact absurd (List.mem_append_right y List.mem_cons_self) (hparen hx (by decide))

end Tight

/-! ## Rules that are maps of trees -/

/-- The functions have names of their own, which no rule writes. -/
structure Translation.Distinct (d : Translation) : Prop where
  targets : ∀ f ∈ d.functions, f.name ∉ d.targets
  names : (d.functions.map SqlFunction.name).Nodup

/-- A function takes the arguments of every call with its name that is known. -/
theorem Translation.Distinct.takes {d : Translation} (h : d.Distinct) {f : SqlFunction}
    (hf : f ∈ d.functions) {g : Text} {args : List (Option Text)} (hknown : d.Known g args)
    (hname : f.name = g.asciiLower) : f.takes args = true := by
  rcases hknown with hg | ⟨x, hx, hxname, htakes⟩
  · exact absurd (hname ▸ hg) (h.targets f hf)
  · obtain rfl := List.inj_on_of_nodup_map h.names hx hf (hxname.trans hname.symm)
    exact htakes

/-- The names of calls that are known. -/
theorem Translation.Known.name_mem {d : Translation} {g : Text} {args : List (Option Text)}
    (h : d.Known g args) : g.asciiLower ∈ d.targets ++ d.functions.map SqlFunction.name := by
  rcases h with hg | ⟨f, hf, hname, -⟩
  · exact List.mem_append_left _ hg
  · exact List.mem_append_right _ (hname ▸ List.mem_map_of_mem hf)

namespace CallRule

variable {rule : TextRule} {s : CallRule} {targets names : List Text} {n new : Text}
  {P : Text → List (Option Text) → Prop} {fits : Text → Prop}

/-- A rule that puts the name `new` for the name `n` of a call. -/
def renameTo (rule : TextRule) (n new : Text) (takes : List (Option Text) → Bool) : CallRule :=
  ⟨rule, [⟨n.asciiLower, takes, none⟩], fun _ _ => .rename new⟩

theorem reaches_renameTo {takes : List (Option Text) → Bool} {g : Text}
    {args : List (Option Text)} :
    (renameTo rule n new takes).reaches g args = true ↔ g.asciiLower = n.asciiLower := by
  simp [renameTo, reaches, SqlFunction.reaches, eq_comm (a := n.asciiLower)]

theorem sound_renameTo {takes : List (Option Text) → Bool} (hpattern : rule.pattern = .opening n)
    (hput : ∀ m, rule.replacement m = new ++ ['(']) (hn : n ≠ [] ∧ ∀ c ∈ n, isLabelChar c = true)
    (hnew : new ≠ [] ∧ ∀ c ∈ new, isLabelChar c = true) (htarget : new.asciiLower ∈ targets) :
    (renameTo rule n new takes).Sound targets P := by
  have hopens : OpensWith rule.pattern [n] := hpattern ▸ OpensWith.opening hn.1 hn.2
  have hrewrites : (renameTo rule n new takes).Rewrites P := by
    refine ⟨hopens.calling, ?_, ?_, fun _ _ _ _ hout => absurd hout (by simp [renameTo])⟩
    · intro g parts b r hform _ _ _ hmiss
      cases hform with
      | node hg _ =>
      by_contra hne
      obtain ⟨m, hm⟩ := Option.ne_none_iff_exists'.1 hne
      rw [write_node_append, List.append_assoc] at hm
      obtain ⟨x, hx, hname⟩ := hopens.exists_name hg hm
      obtain rfl := List.mem_singleton.1 hx
      rw [reaches_renameTo.2 hname] at hmiss
      exact Bool.noConfusion hmiss
    · intro g x parts b r hform _ hb hreach hout
      cases hform with
      | node hg _ =>
      obtain rfl : new = x := Outcome.rename.inj hout
      have hsame := (Pattern.sameLetters_iff hg hn.2).2 (reaches_renameTo.1 hreach)
      have hmatch := Pattern.matchAt?_opening hsame hn.1 hn.2 hb
        (Text.join (separator g) (parts.map write) ++ ')' :: r)
      rw [← hpattern, ← write_node_append] at hmatch
      exact ⟨hsame.ne_nil hn.1, hnew.1, _, hmatch, rfl, hput _⟩
  refine ⟨hrewrites.applyTo_write, fun _ _ _ hout => ?_, fun _ _ _ hout =>
    absurd hout (by simp [renameTo])⟩
  obtain rfl : new = _ := Outcome.rename.inj hout
  exact ⟨htarget, hnew.2⟩

/-- A rule for no call. -/
def idle (rule : TextRule) : CallRule := ⟨rule, [], fun _ _ => .rename []⟩

theorem sound_idle (h : ∀ {e : Expr}, e.Formed → rule.applyTo e.write = e.write) :
    (idle rule).Sound targets P := by
  refine ⟨fun he _ => ?_, fun _ _ hreach _ => Bool.noConfusion hreach,
    fun _ _ hreach _ => Bool.noConfusion hreach⟩
  rw [turn_eq_self rfl he]
  exact h he

/-- A rule for calls finds none if it finds none at the names that are known. -/
theorem rewrites_idle (hcalling : Calling rule.pattern)
    (hmiss : ∀ {g : Text} {args : List (Option Text)} {b : Option Char} (r : Text),
      (∀ c ∈ g, isLabelChar c = true) → P g args →
      rule.pattern.matchAt? b (g ++ '(' :: r) = none) : (idle rule).Rewrites P := by
  refine ⟨hcalling, ?_, fun _ _ _ hreach => Bool.noConfusion hreach,
    fun _ _ _ hreach => Bool.noConfusion hreach⟩
  intro g parts b r hform hP _ _ _
  cases hform with
  | node hg _ =>
  rw [write_node_append, List.append_assoc]
  exact hmiss _ hg hP

theorem sound_idle_of_rewrites (h : (idle rule).Rewrites P) : (idle rule).Sound targets P :=
  ⟨h.applyTo_write, fun _ _ hreach _ => Bool.noConfusion hreach,
    fun _ _ hreach _ => Bool.noConfusion hreach⟩

theorem sound_idle_of_opensWith {d : Translation} (h : OpensWith rule.pattern names)
    (hnames : ∀ n ∈ names, n.asciiLower ∉ d.targets ++ d.functions.map SqlFunction.name) :
    (idle rule).Sound targets d.Known := by
  refine sound_idle_of_rewrites (rewrites_idle h.calling fun r hg hknown => ?_)
  by_contra hne
  obtain ⟨m, hm⟩ := Option.ne_none_iff_exists'.1 hne
  obtain ⟨n, hn, hname⟩ := h.exists_name hg hm
  exact hnames n hn (hname ▸ hknown.name_mem)

/-- A rule that puts a call of texts for whole calls of some functions. A call that it finds has
texts of the class `k` for arguments. -/
def replaceBy (rule : TextRule) (names : List Text) (takes : List (Option Text) → Bool)
    (k : CharClass) (outcome : Text → List Text → Text × List Text) : CallRule :=
  ⟨rule, names.map fun n => ⟨n.asciiLower, takes, some k⟩,
    fun g ts => .replace (node (outcome g ts).1 ((outcome g ts).2.map atom))⟩

/-- The rule finds whole calls with arguments that fit, which are then of the class, and puts for
them what is said. -/
structure Replaces (rule : TextRule) (names : List Text) (takes : List (Option Text) → Bool)
    (k : CharClass) (outcome : Text → List Text → Text × List Text) (targets : List Text)
    (fits : Text → Prop) : Prop where
  tight : Tight rule.pattern names fits
  finds : ∀ {ts : List Text}, (∀ t ∈ ts, Plain t) → takes (ts.map some) = true →
    fits (Text.join [',', ' '] ts) → ∀ t ∈ ts, ∀ c ∈ t, k.has c = true
  writes : ∀ {n g : Text} {ts : List Text}, n ∈ names → g.asciiLower = n.asciiLower →
    (∀ t ∈ ts, Plain t) → takes (ts.map some) = true →
    (∀ c ∈ (outcome g ts).1, isLabelChar c = true) ∧ (outcome g ts).1.asciiLower ∈ targets ∧
      ∀ t ∈ (outcome g ts).2, Plain t
  puts : ∀ {n g : Text} {ts : List Text} {b : Option Char}, n ∈ names →
    Pattern.SameLetters g n → (∀ c ∈ g, isLabelChar c = true) → (∀ t ∈ ts, Plain t) →
    takes (ts.map some) = true → (∀ t ∈ ts, ∀ c ∈ t, k.has c = true) → b.any isWordChar = false →
    ∀ r : Text, ∃ m, rule.pattern.matchAt? b (g ++ '(' :: (Text.join [',', ' '] ts ++ [')'] ++ r)) =
        some m ∧ m.text = g ++ '(' :: (Text.join [',', ' '] ts ++ [')']) ∧
      rule.replacement m = (node (outcome g ts).1 ((outcome g ts).2.map atom)).write

variable {takes : List (Option Text) → Bool} {k : CharClass}
  {outcome : Text → List Text → Text × List Text} {g : Text} {parts : List Expr}

/-- The calls that the rule finds. -/
theorem reaches_replaceBy_iff {args : List (Option Text)} :
    (replaceBy rule names takes k outcome).reaches g args = true ↔
      (∃ n ∈ names, g.asciiLower = n.asciiLower) ∧
        (args.all fun arg => arg.any fun t => t.all k.has) = true := by
  simp only [replaceBy, reaches, List.any_map, List.any_eq_true, Function.comp_apply,
    Bool.and_eq_true, beq_iff_eq, SqlFunction.reaches]
  constructor
  · rintro ⟨n, hn, hname, hargs⟩
    exact ⟨⟨n, hn, hname.symm⟩, hargs⟩
  · rintro ⟨⟨n, hn, hname⟩, hargs⟩
    exact ⟨n, hn, hname.symm, hargs⟩

/-- Arguments that are texts of a class are plain texts. -/
theorem atoms_of_all (hforms : ∀ e ∈ parts, e.Formed)
    (h : ((parts.map text?).all fun arg => arg.any fun t => t.all k.has) = true) :
    ∃ ts : List Text, parts = ts.map atom ∧ (∀ t ∈ ts, Plain t) ∧
      ∀ t ∈ ts, ∀ c ∈ t, k.has c = true := by
  induction parts with
  | nil => exact ⟨[], rfl, by simp, by simp⟩
  | cons e es ih =>
    rw [List.map_cons, List.all_cons, Bool.and_eq_true] at h
    obtain ⟨ts, rfl, hts, hk⟩ := ih (fun x hx => hforms x (List.mem_cons_of_mem e hx)) h.2
    cases hforms e List.mem_cons_self with
    | node => exact absurd h.1 (by simp [text?])
    | @atom t ht =>
      have hall : ∀ c ∈ t, k.has c = true := List.all_eq_true.1 h.1
      exact ⟨t :: ts, rfl, List.forall_mem_cons.2 ⟨ht, hts⟩, List.forall_mem_cons.2 ⟨hall, hk⟩⟩

/-- A rule for whole calls is a map of trees. -/
theorem Replaces.sound (h : Replaces rule names takes k outcome targets fits)
    (hP : ∀ n ∈ names, ∀ g args, P g args → g.asciiLower = n.asciiLower → takes args = true) :
    (replaceBy rule names takes k outcome).Sound targets P := by
  -- a call that is found has a name of its own and arguments without calls
  have hfound : ∀ {g : Text} {parts : List Expr}, (node g parts).Formed →
      P g (parts.map text?) →
      (replaceBy rule names takes k outcome).reaches g (parts.map text?) = true →
      ∃ n ∈ names, g.asciiLower = n.asciiLower ∧ ∃ ts : List Text, parts = ts.map atom ∧
        (∀ t ∈ ts, Plain t) ∧ takes (ts.map some) = true ∧ ∀ t ∈ ts, ∀ c ∈ t, k.has c = true := by
    intro g parts hform hknown hreach
    cases hform with
    | node hg hforms =>
    obtain ⟨⟨n, hn, hname⟩, hargs⟩ := reaches_replaceBy_iff.1 hreach
    obtain ⟨ts, rfl, hts, hk⟩ := atoms_of_all hforms hargs
    have htakes := hP n hn g _ hknown hname
    rw [map_text?_atom] at htakes
    exact ⟨n, hn, hname, ts, rfl, hts, htakes, hk⟩
  have hrewrites : (replaceBy rule names takes k outcome).Rewrites P := by
    refine ⟨h.tight.calling, ?_, fun _ _ _ _ hout => Outcome.noConfusion hout, ?_⟩
    · intro g parts b r hform hknown _ hne hmiss
      by_contra hsome
      obtain ⟨m, hm⟩ := Option.ne_none_iff_exists'.1 hsome
      obtain ⟨⟨n, hn, hname⟩, ts, rfl, hts, hfits⟩ := h.tight.atoms_of_matchAt? hform hne hm
      have htakes := hP n hn g _ hknown hname
      rw [map_text?_atom] at htakes hmiss
      have hargs : ((ts.map some).all fun arg => arg.any fun t => t.all k.has) = true := by
        rw [List.all_map, List.all_eq_true]
        exact fun t ht => List.all_eq_true.2 (h.finds hts htakes hfits t ht)
      rw [reaches_replaceBy_iff.2 ⟨⟨n, hn, hname⟩, hargs⟩] at hmiss
      exact Bool.noConfusion hmiss
    · intro g e parts b r hform hknown hb hreach hout
      obtain ⟨n, hn, hname, ts, rfl, hts, htakes, hk⟩ := hfound hform hknown hreach
      cases hform with
      | node hg _ =>
      obtain ⟨hne, hlabel⟩ := h.tight.labels n hn
      have hsame := (Pattern.sameLetters_iff hg hlabel).2 hname
      obtain ⟨m, hm, htext, hput⟩ := h.puts hn hsame hg hts htakes hk hb r
      have hsep : separator g = [',', ' '] := if_neg (by simpa using hsame.ne_nil hne)
      rw [map_write_atom] at hout
      obtain rfl := Outcome.replace.inj hout
      refine ⟨m, ?_, ?_, hput⟩
      · rw [write_node_append, map_write_atom, hsep, List.append_assoc]
        rwa [List.append_assoc] at hm
      · rw [write_node, map_write_atom, hsep, htext]
  refine ⟨hrewrites.applyTo_write, fun _ _ _ hout => Outcome.noConfusion hout,
    fun hform hknown hreach hout => ?_⟩
  obtain ⟨n, hn, hname, ts, rfl, hts, htakes, hk⟩ := hfound hform hknown hreach
  obtain ⟨hlabels, htarget, hplain⟩ := h.writes hn hname hts htakes
  rw [map_write_atom] at hout
  obtain rfl := Outcome.replace.inj hout
  refine ⟨.node hlabels fun e he => ?_, rfl, all_node_iff.2 ⟨htarget, fun e he => ?_⟩,
    fun e he => ?_⟩
  · obtain ⟨t, ht, rfl⟩ := List.mem_map.1 he
    exact .atom (hplain t ht)
  · obtain ⟨t, -, rfl⟩ := List.mem_map.1 he
    trivial
  · obtain ⟨t, -, rfl⟩ := List.mem_map.1 he
    exact ⟨t, rfl⟩

/-- A rule for whole calls in a translation. -/
theorem Replaces.sound_of_mem {d : Translation}
    (h : Replaces rule names takes k outcome d.targets fits) (hd : d.Distinct)
    (hs : replaceBy rule names takes k outcome ∈ d.rules) :
    (replaceBy rule names takes k outcome).Sound d.targets d.Known := by
  refine h.sound fun n hn g args hknown hname => ?_
  have hf : (⟨n.asciiLower, takes, some k⟩ : SqlFunction) ∈ d.functions :=
    List.mem_flatMap.2 ⟨_, hs, List.mem_map.2 ⟨n, hn, rfl⟩⟩
  exact hd.takes hf hknown hname.symm

end CallRule

end SqlScribe
