import SqlScribe.Proofs.Pattern.Fronts
import SqlScribe.Proofs.Pattern.Heads
import SqlScribe.Proofs.Question.Terms

/-!
# Where numbers begin

A number that stands behind a digit, a comma or a point is the end of a longer one. What an amount
is read from is made a value of its own, `AmountSource`, so that the places where its numbers begin
can be spoken of. Main statements:

* `ungroupedAmount?_eq`: the amount of a text is the one that is read from its source;
* `passesRuns_phrase`, `passesRuns_millions`, `passesRuns_bare`: no number begins behind a digit;
* `numberEnd_of_amountIn?`: only the first phrase of an interval and a number of millions may begin
  behind a comma or a point.
-/

namespace SqlScribe

open Pattern

variable {b c : Option Char} {t u : Text} {m : Match}

/-! ## Sources of amounts -/

/-- The value of a long number without a unit. -/
def bareNumber? (m : Match) : Option Nat :=
  if m.continuesNumber then none
  else
    match (Text.trimStart m.after).head? with
    | some '명' | some '년' => none
    | _ => m.text.toNatUpTo? maxAmount

theorem continuesNumber_of_bareNumber? {n : Nat} (h : bareNumber? m = some n) :
    m.continuesNumber = false := by
  rw [bareNumber?] at h
  split at h
  · exact absurd h (by simp)
  · next hguard => simpa using hguard

/-- What an amount is read from. -/
inductive AmountSource where
  /-- A phrase, and the connector behind it with another phrase. -/
  | interval (first second : Match)
  | betweenMillions (m : Match)
  | phrase (m : Match)
  | millions (m : Match)
  | bare (m : Match)
deriving DecidableEq

namespace AmountSource

/-- The amount that is read from it. -/
def amount? : AmountSource → Option Amount
  | interval m n => intervalOf? phraseValue? (m.text, n.group 1)
  | betweenMillions m => intervalOf? millionsOf? (m.group 1, m.group 2)
  | phrase m => (phraseValue? m.text).map fun v : Nat => .value v
  | millions m => (millionsOf? (m.group 1)).map fun v : Nat => .value v
  | bare m => (bareNumber? m).map fun v : Nat => .value v

/-- The source, if an amount can be read from it. -/
def readable? (s : AmountSource) : Option AmountSource := if s.amount?.isSome then some s else none

/-- The parts of the text that its numbers are taken from. -/
def parts : AmountSource → List Match
  | interval m n => [m, n]
  | betweenMillions m | phrase m | millions m | bare m => [m]

theorem readable?_bind (s : AmountSource) : s.readable?.bind amount? = s.amount? := by
  rw [readable?]
  cases h : s.amount? with
  | none => rfl
  | some a => exact h

theorem isSome_of_readable? {s s' : AmountSource} (h : s.readable? = some s') :
    s'.amount?.isSome = true := by
  rw [readable?, Option.ite_none_right_eq_some] at h
  exact Option.some.inj h.2 ▸ h.1

end AmountSource

open AmountSource

/-- The first two phrases with a connector between them. -/
def connectedMatches? (w : Text) (ms : List Match) : Option (Match × Match) :=
  ms.findSome? fun m =>
    ((AmountPattern.connected w).matchAt? m.text.getLast? m.after).map fun n => (m, n)

/-- The interval of phrases, by the first connector that gives one. -/
def intervalSource? (ms : List Match) : Option AmountSource :=
  connectors.findSome? fun w => (connectedMatches? w ms).bind fun x => (interval x.1 x.2).readable?

def millionsSource? (t : Text) : Option AmountSource :=
  (AmountPattern.betweenMillions.find? t).bind fun m => (betweenMillions m).readable?

/-- The first phrase that can be read. -/
def phraseSource? (ms : List Match) : Option AmountSource :=
  (ms.filter fun m => !m.continuesNumber).findSome? fun m => (phrase m).readable?

/-- The first long number without a unit. -/
def bareSource? (t : Text) : Option AmountSource :=
  (AmountPattern.bare.findAll t).findSome? fun m => (bare m).readable?

/-- What the amount of a text without commas in its numbers is read from. -/
def amountSource? (t : Text) : Option AmountSource :=
  ((intervalSource? (amountPhrases t)).or (millionsSource? t)).or
    ((phraseSource? (amountPhrases t)).or
      (((AmountPattern.millions.find? t).map .millions).or (bareSource? t)))

/-! ## The amount of a source -/

/-- What is found in a list of sources that can be read. -/
theorem findSome?_bind {α : Type} {f : α → Option AmountSource}
    (hf : ∀ {x s}, f x = some s → s.amount?.isSome = true) (l : List α) :
    l.findSome? (fun x => (f x).bind amount?) = (l.findSome? f).bind amount? := by
  induction l with
  | nil => rfl
  | cons x l ih =>
    rw [List.findSome?_cons, List.findSome?_cons]
    cases h : f x with
    | none => exact ih
    | some s =>
      obtain ⟨a, ha⟩ := Option.isSome_iff_exists.1 (hf h)
      simp only [Option.bind_some, ha]

theorem or_bind {o o' : Option AmountSource} (h : ∀ {s}, o = some s → s.amount?.isSome = true) :
    (o.or o').bind amount? = (o.bind amount?).or (o'.bind amount?) := by
  cases o with
  | none => rfl
  | some s =>
    obtain ⟨a, ha⟩ := Option.isSome_iff_exists.1 (h rfl)
    rw [Option.some_or, Option.bind_some, ha, Option.some_or]

theorem isSome_of_bind_readable? {α : Type} {o : Option α} {f : α → AmountSource} {s : AmountSource}
    (h : (o.bind fun x => (f x).readable?) = some s) : s.amount?.isSome = true := by
  obtain ⟨x, -, hx⟩ := Option.bind_eq_some_iff.1 h
  exact isSome_of_readable? hx

theorem bind_readable?_bind {α : Type} (o : Option α) (f : α → AmountSource) :
    (o.bind fun x => (f x).readable?).bind amount? = o.bind fun x => (f x).amount? := by
  rw [Option.bind_assoc]
  exact congrArg _ (funext fun x => (f x).readable?_bind)

theorem phraseInterval?_eq (ms : List Match) :
    phraseInterval? ms = (intervalSource? ms).bind amount? := by
  have hconnected : ∀ w, connectedPhrases? w ms
      = (connectedMatches? w ms).map fun x => (x.1.text, x.2.group 1) := by
    intro w
    rw [connectedPhrases?, connectedMatches?, List.map_findSome?]
    refine congrArg (ms.findSome? ·) (funext fun m => ?_)
    rw [Match.connected?, Function.comp_apply, Option.map_map, Option.map_map]
    rfl
  rw [intervalSource?, ← findSome?_bind isSome_of_bind_readable?, phraseInterval?]
  refine congrArg (connectors.findSome? ·) (funext fun w => ?_)
  rw [bind_readable?_bind, hconnected, Option.bind_map]
  rfl

theorem millionsInterval?_eq (t : Text) :
    millionsInterval? t = (millionsSource? t).bind amount? := by
  rw [millionsSource?, bind_readable?_bind]
  rfl

theorem firstPhraseValue?_eq (ms : List Match) :
    (firstPhraseValue? ms).map (fun v : Nat => Amount.value v) =
    (phraseSource? ms).bind amount? := by
  rw [phraseSource?, ← findSome?_bind isSome_of_readable?, firstPhraseValue?, List.map_findSome?]
  exact congrArg (List.findSome? · _) (funext fun m => (phrase m).readable?_bind.symm)

theorem bareNumberIn?_eq (t : Text) :
    (bareNumberIn? t).map (fun v : Nat => Amount.value v) = (bareSource? t).bind amount? := by
  have hnumber : bareNumberIn? t = (AmountPattern.bare.findAll t).findSome? bareNumber? := rfl
  rw [bareSource?, ← findSome?_bind isSome_of_readable?, hnumber, List.map_findSome?]
  exact congrArg (List.findSome? · _) (funext fun m => (bare m).readable?_bind.symm)

/-- **The amount of a text** is the one that is read from its source. -/
theorem ungroupedAmount?_eq (t : Text) : ungroupedAmount? t = (amountSource? t).bind amount? := by
  have hinterval : ∀ {s}, intervalSource? (amountPhrases t) = some s → s.amount?.isSome = true := by
    intro s hs
    obtain ⟨w, -, hw⟩ := List.exists_of_findSome?_eq_some hs
    exact isSome_of_bind_readable? hw
  have hfirst : ∀ {s}, (intervalSource? (amountPhrases t)).or (millionsSource? t) = some s →
      s.amount?.isSome = true := by
    intro s hs
    exact (Option.or_eq_some_iff.1 hs).elim hinterval fun hs => isSome_of_bind_readable? hs.2
  have hphrase : ∀ {s}, phraseSource? (amountPhrases t) = some s → s.amount?.isSome = true := by
    intro s hs
    obtain ⟨m, -, hm⟩ := List.exists_of_findSome?_eq_some hs
    exact isSome_of_readable? hm
  rw [amountSource?, or_bind hfirst, or_bind hinterval, or_bind hphrase, ← phraseInterval?_eq,
    ← millionsInterval?_eq, ← firstPhraseValue?_eq, ungroupedAmount?]
  cases (phraseInterval? (amountPhrases t)).or (millionsInterval? t) with
  | some a => rfl
  | none =>
    cases firstPhraseValue? (amountPhrases t) with
    | some v => rfl
    | none =>
      cases AmountPattern.millions.find? t with
      | some m =>
        show Option.map _ _ = Option.map _ _
        cases millionsOf? (m.group 1) <;> rfl
      | none =>
        show Option.map _ _ = Option.bind (bareSource? t) amount?
        rw [← bareNumberIn?_eq]
        cases bareNumberIn? t <;> rfl

/-! ## Runs of digits -/

/-- The characters in front of the runs of digits in a text behind `b`; `inside` says that the text
goes on with a run. -/
def digitFrontsFrom : (inside : Bool) → Option Char → Text → List (Option Char)
  | _, _, [] => []
  | inside, b, c :: t =>
      if isDecimal c then (if inside then [] else [b]) ++ digitFrontsFrom true (some c) t
      else digitFrontsFrom false (some c) t

/-- The characters in front of the runs of digits in a match. -/
def Match.digitFronts (m : Match) : List (Option Char) := digitFrontsFrom false m.before m.text

/-- The characters in front of the runs of digits that numbers are taken from. -/
def AmountSource.digitFronts (s : AmountSource) : List (Option Char) :=
  s.parts.flatMap Match.digitFronts

/-- A number that begins behind this character is the end of a longer one. -/
def CutsNumber (c : Option Char) : Prop := ∃ x ∈ c, isDecimal x = true ∨ x = ',' ∨ x = '.'

theorem mem_digitFrontsFrom {inside : Bool} (h : c ∈ digitFrontsFrom inside b t) :
    (inside = false ∧ c = b ∧ t.head?.any isDecimal = true) ∨
      ∃ x ∈ t, isDecimal x = false ∧ c = some x := by
  induction t generalizing inside b with
  | nil => exact absurd h List.not_mem_nil
  | cons x t ih =>
    rw [digitFrontsFrom] at h
    cases hx : isDecimal x with
    | true =>
      rw [if_pos hx] at h
      rcases List.mem_append.1 h with h | h
      · cases inside with
        | true => exact absurd h List.not_mem_nil
        | false => exact Or.inl ⟨rfl, List.mem_singleton.1 h, hx⟩
      · rcases ih h with ⟨hinside, -⟩ | ⟨y, hy, hfront⟩
        · exact absurd hinside (by simp)
        · exact Or.inr ⟨y, List.mem_cons_of_mem x hy, hfront⟩
    | false =>
      rw [if_neg (by simp [hx])] at h
      rcases ih h with ⟨-, rfl, -⟩ | ⟨y, hy, hfront⟩
      · exact Or.inr ⟨x, List.mem_cons_self, hx, rfl⟩
      · exact Or.inr ⟨y, List.mem_cons_of_mem x hy, hfront⟩

/-- A class without the comma and the point. -/
def CharClass.isMarkless (k : CharClass) : Bool := !k.has ',' && !k.has '.'

/-- In a match without commas and points only the first number can be the end of a longer one. -/
theorem Match.IsOf.eq_before {p : Pattern} (hp : p.allows CharClass.isMarkless = true)
    (hm : m.IsOf p b t) (hc : c ∈ m.digitFronts) (hcuts : CutsNumber c) :
    c = m.before ∧ m.text.head?.any isDecimal = true := by
  rcases mem_digitFrontsFrom hc with ⟨-, hbefore, hhead⟩ | ⟨x, hx, hdecimal, rfl⟩
  · exact ⟨hbefore, hhead⟩
  · obtain ⟨k, hk, hhas⟩ := allowed_of_spells hp hm.spells x hx
    obtain ⟨y, hy, hcuts⟩ := hcuts
    obtain rfl := Option.some.inj hy
    rw [CharClass.isMarkless, Bool.and_eq_true, Bool.not_eq_true', Bool.not_eq_true'] at hk
    rcases hcuts with h | rfl | rfl
    · exact absurd (hdecimal.symm.trans h) Bool.false_ne_true
    · exact absurd (hk.1.symm.trans hhas) Bool.false_ne_true
    · exact absurd (hk.2.symm.trans hhas) Bool.false_ne_true

namespace AmountPattern

theorem allows_phrase : phrase.allows CharClass.isMarkless = true := by decide

theorem allows_connected {w : Text} (hw : w ∈ connectors) :
    (connected w).allows CharClass.isMarkless = true := by
  have hall : ∀ w ∈ connectors, (connected w).allows CharClass.isMarkless = true := by decide
  exact hall w hw

theorem allows_betweenMillions : betweenMillions.allows CharClass.isMarkless = true := by decide

theorem allows_millions : millions.allows CharClass.isMarkless = true := by decide

theorem allows_bare : bare.allows CharClass.isMarkless = true := by decide

end AmountPattern

/-! ## Whole runs -/

theorem simpleFold_of_isDecimal {x : Char} (h : isDecimal x = true) : simpleFold x = x := by
  have hupper : x.isUpper = false := Bool.eq_false_iff.2 fun hupper =>
    Bool.false_ne_true ((isAlpha_of_isDecimal h).symm.trans (isAlpha_iff.2 (Or.inl hupper)))
  rw [simpleFold_of_class (isDecimal_of_mem_nonDigits (by decide))
    (isDecimal_of_mem_nonDigits (by decide)) h,
    toLower_of_not_isUpper hupper]

/-- A class without digits. -/
def CharClass.avoidsDecimals : CharClass → Bool
  | .blank => true
  | .among cs => cs.all nonDigits.contains
  | .letter c => (simpleFold c).isAlpha
  | _ => false

theorem CharClass.isDecimal_eq_false {k : CharClass} (hk : k.avoidsDecimals = true) {x : Char}
    (hx : k.has x = true) : isDecimal x = false := by
  cases k with
  | blank => exact isDecimal_of_isBlank hx
  | among cs =>
    have hmem := List.all_eq_true.1 hk x (List.contains_iff_mem.1 hx)
    exact isDecimal_of_mem_nonDigits (List.contains_iff_mem.1 hmem)
  | letter c =>
    refine Bool.eq_false_iff.2 fun hdecimal => ?_
    have hfold : simpleFold c = simpleFold x := beq_iff_eq.1 hx
    rw [avoidsDecimals, hfold, simpleFold_of_isDecimal hdecimal,
      isAlpha_of_isDecimal hdecimal] at hk
    exact Bool.false_ne_true hk
  | _ => exact absurd hk Bool.false_ne_true

namespace AmountPattern

/-- A pattern that ends in other characters does not end within a run of digits. -/
theorem passesRuns_of_endsIn {p : Pattern} (h : BeginsInRun .decimal p)
    (hp : p.endsIn CharClass.avoidsDecimals = true) : PassesRuns .decimal p :=
  h.passesRuns fun hu y hy => by
    obtain ⟨k, hk, hhas⟩ := last_of_endsIn hp hu hy
    exact CharClass.isDecimal_eq_false hk hhas

theorem passesRuns_phrase : PassesRuns .decimal phrase := by
  have hrun := beginsInRun_run1 .decimal
  refine passesRuns_of_endsIn (BeginsInRun.alt ?_ ((hrun.seq _).seq _)) (by decide)
  exact ((((hrun.seq _).seq _).seq _).seq _).seq _

theorem passesRuns_millions : PassesRuns .decimal millions := by
  have hrun := (beginsInRun_run1 .decimal).group 1
  exact passesRuns_of_endsIn (((hrun.seq _).seq _).seq _) (by decide)

/-- A long number is taken whole. -/
theorem matchAt?_bare (hu : u.length = 5) (hdecimal : ∀ x ∈ u, isDecimal x = true) (t : Text) :
    bare.matchAt? b (u ++ t) = some ⟨b, u ++ t.takeWhile isDecimal, [], t.dropWhile isDecimal⟩ := by
  have htext : u ++ t = u ++ t.takeWhile isDecimal ++ t.dropWhile isDecimal := by
    rw [List.append_assoc, List.takeWhile_append_dropWhile]
  have hne : u ++ t.takeWhile isDecimal ≠ [] := by
    refine List.append_ne_nil_of_left_ne_nil (fun hnil => ?_) _
    rw [hnil] at hu
    exact absurd hu (by simp)
  have hfirst : first bare ⟨b, u ++ t.takeWhile isDecimal ++ t.dropWhile isDecimal, []⟩ some
      = some ⟨(t.takeWhile isDecimal).getLast?.or (u.getLast?.or b),
        t.dropWhile isDecimal, []⟩ := by
    rw [← htext, bare, first_append, first_times (k := .decimal) hu hdecimal, first_run]
    rfl
  rw [htext]
  exact matchAt?_of_first hfirst hne

theorem exists_of_matchAt?_bare (h : bare.matchAt? b t = some m) :
    ∃ u s, t = u ++ s ∧ u.length = 5 ∧ ∀ x ∈ u, isDecimal x = true := by
  have hof := isOf_of_matchAt? h
  obtain ⟨u, s, hmtext, hu, -⟩ := hof.spells
  obtain ⟨hlength, hdecimal⟩ := of_spells_times hu
  exact ⟨u, s ++ m.after, by rw [← hof.text_append, hmtext, List.append_assoc], hlength, hdecimal⟩

theorem passesRuns_bare : PassesRuns .decimal bare where
  earlier := by
    intro b x t hx hnone
    by_contra hne
    obtain ⟨m, hm⟩ := Option.ne_none_iff_exists'.1 hne
    obtain ⟨u, s, rfl, hlength, hdecimal⟩ := exists_of_matchAt?_bare hm
    obtain ⟨v, y, rfl⟩ := (List.eq_nil_or_concat u).resolve_left (by
      rintro rfl
      exact absurd hlength (by simp))
    rw [List.concat_eq_append] at hlength hdecimal hnone
    rw [List.length_append, List.length_singleton] at hlength
    rw [List.append_assoc, ← List.cons_append, matchAt?_bare (by simp; omega)] at hnone
    · exact absurd hnone (by simp)
    · rw [List.forall_mem_cons]
      exact ⟨hx, fun z hz => hdecimal z (List.mem_append_left _ hz)⟩
  behind := by
    intro b t m y hm hlast hy
    obtain ⟨u, s, rfl, hlength, hdecimal⟩ := exists_of_matchAt?_bare hm
    rw [matchAt?_bare hlength hdecimal] at hm
    obtain rfl := Option.some.inj hm
    by_contra hne
    obtain ⟨m', hm'⟩ := Option.ne_none_iff_exists'.1 hne
    obtain ⟨v, r, hafter, hlength, hdecimal⟩ := exists_of_matchAt?_bare hm'
    obtain ⟨z, v, rfl⟩ := List.exists_cons_of_ne_nil (fun hnil => by
      rw [hnil] at hlength
      exact absurd hlength (by simp) : v ≠ [])
    have hstop := List.head?_dropWhile_not isDecimal s
    simp only at hafter
    rw [hafter] at hstop
    have hz : isDecimal z = false := hstop
    exact absurd (hz.symm.trans (hdecimal z List.mem_cons_self)) Bool.false_ne_true

end AmountPattern

/-! ## The fronts of numbers -/

/-- No phrase begins behind a digit. -/
theorem not_isDecimal_of_cuts {p : Pattern} (hp : PassesRuns .decimal p) (hm : m ∈ p.findAll t)
    (hcuts : CutsNumber m.before) : m.before = some ',' ∨ m.before = some '.' := by
  obtain ⟨x, hx, hcuts⟩ := hcuts
  have hbefore := hp.before_of_mem_findAll hm
  rw [Option.mem_def.1 hx] at hbefore ⊢
  rcases hcuts with h | rfl | rfl
  · exact absurd (hbefore.symm.trans h) Bool.false_ne_true
  · exact Or.inl rfl
  · exact Or.inr rfl

/-- A number that continues none and does not begin behind a digit is whole. -/
theorem not_cuts_of_continuesNumber {p : Pattern} (hp : PassesRuns .decimal p)
    (hm : m ∈ p.findAll t) (hguard : m.continuesNumber = false) : ¬ CutsNumber m.before := by
  intro hcuts
  rcases not_isDecimal_of_cuts hp hm hcuts with h | h <;>
  · rw [Match.continuesNumber, h] at hguard
    exact absurd hguard (by decide)

/-- A connector does not begin with a digit. -/
theorem AmountPattern.head_connected {w : Text} (hw : w ∈ connectors)
    (hu : (connected w).Spells u) : u.head?.any isDecimal = false := by
  obtain ⟨_, _, rfl, ⟨_, _, rfl, ⟨e, v, rfl, he, hv⟩, -⟩, -⟩ := hu
  obtain rfl := spells_literal.1 hv
  cases e with
  | cons x e => exact isDecimal_of_isBlank (he x List.mem_cons_self)
  | nil =>
    have hall : ∀ w ∈ connectors, w.head?.any nonDigits.contains = true := by decide
    obtain ⟨c, hc, hmem⟩ := (Option.any_eq_true ..).1 (hall v hw)
    obtain ⟨s, rfl⟩ := List.head?_eq_some_iff.1 hc
    exact isDecimal_of_mem_nonDigits (List.contains_iff_mem.1 hmem)

/-- Neither does what two numbers of millions begin with. -/
theorem AmountPattern.head_betweenMillions (hu : betweenMillions.Spells u) :
    u.head?.any isDecimal = false := by
  have hheads : betweenMillions.heads = [(("between" : Text), false)] := by decide
  obtain ⟨x, hx, hstarts, -⟩ := exists_head hu
  rw [hheads, List.mem_singleton] at hx
  subst hx
  cases u with
  | nil => rfl
  | cons x u =>
    obtain ⟨hx, -⟩ := (List.cons_prefix_cons (a := 'b')).1 hstarts
    refine Bool.eq_false_iff.2 fun hdecimal => ?_
    rw [simpleFold_of_isDecimal hdecimal] at hx
    rw [List.head?_cons, Option.any_some, ← hx] at hdecimal
    exact absurd hdecimal (by decide)

/-- A source that the search in a text may come upon. -/
inductive AmountSource.FoundIn (t : Text) : AmountSource → Prop
  | interval {w : Text} {m n : Match} (connector : w ∈ connectors) (first : m ∈ amountPhrases t)
      (second : (AmountPattern.connected w).matchAt? m.text.getLast? m.after = some n) :
      FoundIn t (.interval m n)
  | betweenMillions {m : Match} (found : m ∈ AmountPattern.betweenMillions.findAll t) :
      FoundIn t (.betweenMillions m)
  | phrase {m : Match} (found : m ∈ amountPhrases t) (whole : m.continuesNumber = false) :
      FoundIn t (.phrase m)
  | millions {m : Match} (found : m ∈ AmountPattern.millions.findAll t) : FoundIn t (.millions m)
  | bare {m : Match} (found : m ∈ AmountPattern.bare.findAll t)
      (whole : m.continuesNumber = false) :
      FoundIn t (.bare m)

theorem AmountSource.eq_of_readable? {s s' : AmountSource} (h : s.readable? = some s') :
    s = s' := by
  rw [readable?, Option.ite_none_right_eq_some] at h
  exact Option.some.inj h.2

theorem foundIn_of_amountSource? {s : AmountSource} (h : amountSource? t = some s) :
    s.FoundIn t := by
  rw [amountSource?] at h
  rcases Option.or_eq_some_iff.1 h with h | ⟨-, h⟩
  · rcases Option.or_eq_some_iff.1 h with h | ⟨-, h⟩
    · obtain ⟨w, hw, h⟩ := List.exists_of_findSome?_eq_some h
      obtain ⟨x, hx, hs⟩ := Option.bind_eq_some_iff.1 h
      obtain ⟨m, hm, hpair⟩ := List.exists_of_findSome?_eq_some hx
      obtain ⟨n, hn, rfl⟩ := Option.map_eq_some_iff.1 hpair
      exact eq_of_readable? hs ▸ .interval hw hm hn
    · obtain ⟨m, hm, hs⟩ := Option.bind_eq_some_iff.1 h
      exact eq_of_readable? hs ▸ .betweenMillions (List.mem_of_head? hm)
  · rcases Option.or_eq_some_iff.1 h with h | ⟨-, h⟩
    · obtain ⟨m, hm, hs⟩ := List.exists_of_findSome?_eq_some h
      obtain ⟨hm, hguard⟩ := List.mem_filter.1 hm
      exact eq_of_readable? hs ▸ .phrase hm (by simpa using hguard)
    · rcases Option.or_eq_some_iff.1 h with h | ⟨-, h⟩
      · obtain ⟨m, hm, rfl⟩ := Option.map_eq_some_iff.1 h
        exact .millions (List.mem_of_head? hm)
      · obtain ⟨m, hm, hs⟩ := List.exists_of_findSome?_eq_some h
        have hsome := isSome_of_readable? hs
        rw [← eq_of_readable? hs, amount?, Option.isSome_map] at hsome
        obtain ⟨n, hn⟩ := Option.isSome_iff_exists.1 hsome
        exact eq_of_readable? hs ▸ .bare hm (continuesNumber_of_bareNumber? hn)

/-- The first number of an interval of phrases, or the number of millions. -/
def AmountSource.unguarded? : AmountSource → Option Match
  | interval m _ | millions m => some m
  | betweenMillions _ | phrase _ | bare _ => none

/-- In a source only an unguarded number can be the end of a longer one, and not behind a digit. -/
theorem AmountSource.FoundIn.cutsNumber {s : AmountSource} (h : s.FoundIn t)
    (hc : c ∈ s.digitFronts) (hcuts : CutsNumber c) :
    (c = some ',' ∨ c = some '.') ∧ ∃ m ∈ s.unguarded?, c = m.before := by
  have hof : ∀ {p : Pattern} {m : Match}, m ∈ p.findAll t → ∃ b u, m.IsOf p b u := fun hm => by
    obtain ⟨v, w, -, hof⟩ := isOf_of_mem_findAll hm
    exact ⟨_, _, hof⟩
  rw [digitFronts] at hc
  cases h with
  | @interval w m n hw hm hn =>
    simp only [parts, List.flatMap_cons, List.flatMap_nil, List.append_nil, List.mem_append] at hc
    rcases hc with hc | hc
    · obtain ⟨b, u, hof⟩ := hof hm
      obtain ⟨rfl, -⟩ := hof.eq_before AmountPattern.allows_phrase hc hcuts
      exact ⟨not_isDecimal_of_cuts AmountPattern.passesRuns_phrase hm hcuts, m, rfl, rfl⟩
    · have hof := isOf_of_matchAt? hn
      obtain ⟨-, hhead⟩ := hof.eq_before (AmountPattern.allows_connected hw) hc hcuts
      rw [AmountPattern.head_connected hw hof.spells] at hhead
      exact absurd hhead Bool.false_ne_true
  | @betweenMillions m hm =>
    obtain ⟨b, u, hof⟩ := hof hm
    obtain ⟨-, hhead⟩ := hof.eq_before AmountPattern.allows_betweenMillions
      (by simpa [parts] using hc) hcuts
    rw [AmountPattern.head_betweenMillions hof.spells] at hhead
    exact absurd hhead Bool.false_ne_true
  | @phrase m hm hguard =>
    obtain ⟨b, u, hof⟩ := hof hm
    obtain ⟨rfl, -⟩ := hof.eq_before AmountPattern.allows_phrase (by simpa [parts] using hc) hcuts
    exact absurd hcuts (not_cuts_of_continuesNumber AmountPattern.passesRuns_phrase hm hguard)
  | @millions m hm =>
    obtain ⟨b, u, hof⟩ := hof hm
    obtain ⟨rfl, -⟩ := hof.eq_before AmountPattern.allows_millions (by simpa [parts] using hc) hcuts
    exact ⟨not_isDecimal_of_cuts AmountPattern.passesRuns_millions hm hcuts, m, rfl, rfl⟩
  | @bare m hm hguard =>
    obtain ⟨b, u, hof⟩ := hof hm
    obtain ⟨rfl, -⟩ := hof.eq_before AmountPattern.allows_bare (by simpa [parts] using hc) hcuts
    exact absurd hcuts (not_cuts_of_continuesNumber AmountPattern.passesRuns_bare hm hguard)

/-- **Where numbers begin.** An amount is read from a source, and no run of digits in it begins
behind a digit, a comma or a point, unless it is the first number of an interval of phrases or a
number of millions, and these at most behind a comma or a point. -/
theorem numberEnd_of_amountIn? {a : Amount} (h : amountIn? t = some a) :
    ∃ s, amountSource? (ungroupDigits t) = some s ∧ s.amount? = some a ∧
      ∀ c ∈ s.digitFronts, CutsNumber c →
        (c = some ',' ∨ c = some '.') ∧ ∃ m ∈ s.unguarded?, c = m.before := by
  rw [amountIn?, ungroupedAmount?_eq] at h
  obtain ⟨s, hs, ha⟩ := Option.bind_eq_some_iff.1 h
  exact ⟨s, hs, ha, fun c hc hcuts => (foundIn_of_amountSource? hs).cutsNumber hc hcuts⟩

/-- The number of `연봉 5천만원` stands behind a space. -/
theorem numberEnd_fiftyMillion : amountIn? "연봉 5천만원" = some (.value 50000000) ∧
    ∃ s, amountSource? (ungroupDigits "연봉 5천만원") = some s ∧ s.amount? = some (.value 50000000) ∧
      ∀ c ∈ s.digitFronts, CutsNumber c →
        (c = some ',' ∨ c = some '.') ∧ ∃ m ∈ s.unguarded?, c = m.before :=
  have h : amountIn? "연봉 5천만원" = some (.value 50000000) := by decide +kernel
  ⟨h, numberEnd_of_amountIn? h⟩

/-- The five of `1.5 million` is read although it stands behind the point. -/
theorem not_numberEnd_million :
    ¬ ∀ (t : Text) (a : Amount) (s : AmountSource), amountIn? t = some a →
      amountSource? (ungroupDigits t) = some s → ∀ c ∈ s.digitFronts, ¬ CutsNumber c := by
  intro h
  have heval : amountIn? "1.5 million" = some (.value 5000000) ∧
      amountSource? (ungroupDigits "1.5 million")
        = some (.millions ⟨some '.', "5 million", [(1, "5")], []⟩) := by decide +kernel
  exact h _ _ _ heval.1 heval.2 (some '.') (by decide) ⟨'.', rfl, Or.inr (Or.inr rfl)⟩

end SqlScribe
