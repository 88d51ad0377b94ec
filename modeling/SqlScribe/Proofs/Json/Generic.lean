import Mathlib.Data.List.Perm.Basic
import Mathlib.Order.Basic
import Mathlib.Data.Char
import Mathlib.Data.List.Lex
import Mathlib.Data.List.Nodup
import SqlScribe.Json.Shape

/-!
# Values in their own right

A document becomes a value in its own right member by member and item by item. Where no object names
a member twice, nothing is lost that way: each object keeps its members and puts them in the order
of their keys. Main statements:

* `insertMember_put`: what putting a member in does to the others;
* `settles_of_genericIn?`: what a value in its own right is, by the shape of the document;
* `Settles.fields?`: the fields of a record are found in both alike.
-/

namespace SqlScribe

namespace Json

/-! ## Keys -/

mutual

/-- Whether no object in the value has two members of one name. -/
def keysOnce : Json → Bool
  | array js => keysOnceItems js
  | object ms => decide (ms.filterMap Prod.fst).Nodup && keysOnceMembers ms
  | _ => true

/-- The same of the items of an array. -/
def keysOnceItems : List Json → Bool
  | [] => true
  | j :: js => j.keysOnce && keysOnceItems js

/-- The same of the members of an object. -/
def keysOnceMembers : List (Option Text × Json) → Bool
  | [] => true
  | (_, j) :: ms => j.keysOnce && keysOnceMembers ms

end

/-- A member as it stands in an object. -/
def put (m : Text × Json) : Option Text × Json := (some m.1, m.2)

/-- The members come in the order of their keys, each key once. -/
def InOrder (ms : List (Text × Json)) : Prop := ms.Pairwise fun a b => a.1 < b.1

theorem filterMap_fst_put (ms : List (Text × Json)) :
    (ms.map put).filterMap Prod.fst = ms.map Prod.fst := by
  rw [List.filterMap_map, ← List.filterMap_eq_map]
  rfl

/-- A member with a new key is put in between the others. -/
theorem insertMember_put {k : Text} (j : Json) {seen : List (Text × Json)}
    (hk : k ∉ seen.map Prod.fst) (hseen : InOrder seen) :
    ∃ ws, insertMember k j (seen.map put) = ws.map put ∧ ws.Perm ((k, j) :: seen) ∧ InOrder ws := by
  induction seen with
  | nil => exact ⟨[(k, j)], rfl, .refl _, List.pairwise_singleton ..⟩
  | cons m seen ih =>
    obtain ⟨l, i⟩ := m
    rw [List.map_cons, List.mem_cons, not_or] at hk
    obtain ⟨hfirst, hrest⟩ := List.pairwise_cons.1 hseen
    rw [List.map_cons, put, insertMember, if_neg hk.1]
    by_cases hlt : k < l
    · rw [if_pos hlt]
      refine ⟨(k, j) :: (l, i) :: seen, rfl, .refl _, List.pairwise_cons.2 ⟨fun m hm => ?_, hseen⟩⟩
      rcases List.mem_cons.1 hm with rfl | hm
      · exact hlt
      · exact List.lt_trans hlt (hfirst m hm)
    · obtain ⟨ws, hws, hperm, horder⟩ := ih hk.2 hrest
      have hgt : l < k := ((lt_trichotomy k l).resolve_left hlt).resolve_left hk.1
      rw [if_neg hlt, hws]
      refine ⟨(l, i) :: ws, rfl, (hperm.cons (l, i)).trans (.swap ..),
        List.pairwise_cons.2 ⟨fun m hm => ?_, horder⟩⟩
      rcases List.mem_cons.1 (hperm.mem_iff.1 hm) with rfl | hm
      · exact hgt
      · exact hfirst m hm

/-! ## What a value in its own right is -/

/-- The second value is the first one in its own right: strings are texts, and the members of an
object stand in the order of their keys. -/
inductive Settles : Json → Json → Prop where
  | null : Settles .null .null
  | bool (b : Bool) : Settles (.bool b) (.bool b)
  | number (w : Text) : Settles (.number w) (.number w)
  | string (t : Text) : Settles (.string (some t)) (.string (some t))
  | array {js vs : List Json} (hitems : List.Forall₂ Settles js vs) :
      Settles (.array js) (.array vs)
  | object {ms us ws : List (Text × Json)} (hkeys : (ms.map Prod.fst).Nodup)
      (hnames : us.map Prod.fst = ms.map Prod.fst)
      (hvalues : List.Forall₂ Settles (ms.map Prod.snd) (us.map Prod.snd)) (hperm : ws.Perm us)
      (horder : InOrder ws) : Settles (.object (ms.map put)) (.object (ws.map put))

mutual

theorem settles_of_genericIn? {room : Nat} : ∀ (j : Json) {v : Json}, j.keysOnce = true →
    genericIn? room j = some v → Settles j v
  | null, v, _, h => by
    obtain rfl := Option.some.inj h
    exact .null
  | bool b, v, _, h => by
    obtain rfl := Option.some.inj h
    exact .bool b
  | number w, v, _, h => by
    rw [genericIn?] at h
    split at h
    · obtain rfl := Option.some.inj h
      exact .number w
    · exact absurd h (by simp)
  | string t, v, _, h => by
    obtain ⟨t, rfl, rfl⟩ := Option.map_eq_some_iff.1 h
    exact .string t
  | array js, v, hk, h => by
    cases room with
    | zero => exact absurd h (by simp [genericIn?])
    | succ room =>
      obtain ⟨vs, hvs, rfl⟩ := Option.map_eq_some_iff.1 h
      exact .array (forall₂_of_genericItems? js hk hvs)
  | object ms, v, hk, h => by
    cases room with
    | zero => exact absurd h (by simp [genericIn?])
    | succ room =>
      obtain ⟨vs, hvs, rfl⟩ := Option.map_eq_some_iff.1 h
      obtain ⟨hkeys, hk⟩ := Bool.and_eq_true_iff.1 hk
      have hnodup : (ms.filterMap Prod.fst ++ ([] : List (Text × Json)).map Prod.fst).Nodup := by
        rw [List.map_nil, List.append_nil]
        exact of_decide_eq_true hkeys
      obtain ⟨ms, us, ws, rfl, hnames, hvalues, hperm, horder, rfl⟩ :=
        exists_of_genericMembers? ms hk hnodup .nil hvs
      rw [filterMap_fst_put, List.map_nil, List.append_nil] at hnodup
      rw [List.append_nil] at hperm
      exact .object hnodup hnames hvalues hperm horder

theorem forall₂_of_genericItems? {room : Nat} : ∀ (js : List Json) {vs : List Json},
    keysOnceItems js = true → genericItems? room js = some vs → List.Forall₂ Settles js vs
  | [], vs, _, h => by
    obtain rfl := Option.some.inj h
    exact .nil
  | j :: js, vs, hk, h => by
    obtain ⟨hj, hjs⟩ := Bool.and_eq_true_iff.1 hk
    simp only [genericItems?] at h
    split at h
    · next i is hi his =>
      obtain rfl := Option.some.inj h
      exact .cons (settles_of_genericIn? j hj hi) (forall₂_of_genericItems? js hjs his)
    · exact absurd h (by simp)

theorem exists_of_genericMembers? {room : Nat} : ∀ (ms : List (Option Text × Json))
    {seen : List (Text × Json)} {vs : List (Option Text × Json)}, keysOnceMembers ms = true →
    (ms.filterMap Prod.fst ++ seen.map Prod.fst).Nodup → InOrder seen →
    genericMembers? room (seen.map put) ms = some vs →
    ∃ ms' us ws : List (Text × Json), ms = ms'.map put ∧ us.map Prod.fst = ms'.map Prod.fst ∧
      List.Forall₂ Settles (ms'.map Prod.snd) (us.map Prod.snd) ∧ ws.Perm (us ++ seen) ∧
      InOrder ws ∧ vs = ws.map put
  | [], seen, vs, _, _, horder, h => by
    obtain rfl := Option.some.inj h
    exact ⟨[], [], seen, rfl, rfl, .nil, .refl _, horder, rfl⟩
  | (k, j) :: ms, seen, vs, hk, hkeys, horder, h => by
    obtain ⟨hj, hms⟩ := Bool.and_eq_true_iff.1 hk
    simp only [genericMembers?] at h
    split at h
    · next k i hi =>
      rw [List.filterMap_cons_some (by rfl), List.cons_append, List.nodup_cons] at hkeys
      obtain ⟨hnew, hkeys⟩ := hkeys
      obtain ⟨seen', hput, hseen, horder'⟩ :=
        insertMember_put i (fun hmem => hnew (List.mem_append_right _ hmem)) horder
      have hkeys' : (ms.filterMap Prod.fst ++ seen'.map Prod.fst).Nodup := by
        refine ((hseen.map Prod.fst).append_left _).nodup_iff.2 ?_
        exact List.perm_middle.nodup_iff.2 (List.nodup_cons.2 ⟨hnew, hkeys⟩)
      rw [hput] at h
      obtain ⟨ms', us, ws, rfl, hnames, hvalues, hperm, hws, rfl⟩ :=
        exists_of_genericMembers? ms hms hkeys' horder' h
      refine ⟨(k, j) :: ms', (k, i) :: us, ws, rfl, congrArg (k :: ·) hnames,
        .cons (settles_of_genericIn? j hj hi) hvalues, ?_, hws, rfl⟩
      exact hperm.trans ((hseen.append_left us).trans List.perm_middle)
    · exact absurd h (by simp)

end

theorem settles_of_generic? {j v : Json} (hk : j.keysOnce = true) (h : j.generic? = some v) :
    Settles j v := settles_of_genericIn? j hk h

/-! ## What is read from both alike -/

/-- From a value in its own right the same is read as from the document. -/
def Steady {α : Type} (read : Json → Option α) : Prop :=
  ∀ ⦃j v : Json⦄, Settles j v → read v = read j

variable {α : Type} {read : Json → Option α} {j v : Json} {a b : Option Json}

theorem steady_text? : Steady text? := by
  rintro _ _ ⟨⟩ <;> rfl

theorem steady_bool? : Steady bool? := by
  rintro _ _ ⟨⟩ <;> rfl

theorem Steady.mapM (h : Steady read) {js vs : List Json} (hitems : List.Forall₂ Settles js vs) :
    vs.mapM read = js.mapM read := by
  induction hitems with
  | nil => rfl
  | cons hitem _ ih => rw [List.mapM_cons, List.mapM_cons, h hitem, ih]

theorem Steady.listOf? (h : Steady read) : Steady (Json.listOf? read) := by
  rintro _ _ hsettles
  cases hsettles with
  | array hitems => exact h.mapM hitems
  | _ => rfl

theorem Steady.required? (h : Steady read) (hfield : Option.Rel Settles a b) :
    Json.required? read b = Json.required? read a := by
  cases hfield with
  | none => rfl
  | some hsettles => exact h hsettles

theorem Steady.orDefault? (h : Steady read) (default : α) (hfield : Option.Rel Settles a b) :
    Json.orDefault? read default b = Json.orDefault? read default a := by
  cases hfield with
  | none => rfl
  | some hsettles => exact h hsettles

/-! ## Records -/

theorem members?_put (ms : List (Text × Json)) : (object (ms.map put)).members? = some ms := by
  rw [members?]
  induction ms with
  | nil => rfl
  | cons m ms ih => rw [List.map_cons, List.mapM_cons, ih]; rfl

/-- In an object without repeated keys the fields are looked up. -/
theorem fields?_object {ms : List (Text × Json)} (hkeys : (ms.map Prod.fst).Nodup)
    (names : List Text) :
    (object (ms.map put)).fields? names = some (names.map fun n => ms.lookup n) := by
  have honce : ¬ (names.any fun n => decide (1 < (ms.filter fun m => m.1 == n).length)) = true := by
    rw [List.any_eq_true]
    rintro ⟨n, -, hn⟩
    have hcount := List.nodup_iff_count_le_one.1 hkeys n
    rw [List.count, List.countP_map, List.countP_eq_length_filter] at hcount
    exact absurd (of_decide_eq_true hn) (Nat.not_lt.2 hcount)
  rw [fields?, members?_put]
  · exact if_neg honce
  · exact fun js h => by simp at h

/-- A key is found in members in any order alike. -/
theorem lookup_perm {us ws : List (Text × Json)} (h : ws.Perm us) (hkeys : (ws.map Prod.fst).Nodup)
    (n : Text) : ws.lookup n = us.lookup n := by
  induction h with
  | nil => rfl
  | cons m h ih =>
    rw [List.map_cons, List.nodup_cons] at hkeys
    rw [List.lookup_cons, List.lookup_cons, ih hkeys.2]
  | swap m m' ms =>
    obtain ⟨k, j⟩ := m
    obtain ⟨k', j'⟩ := m'
    have hne : k' ≠ k := fun heq => by simp [heq] at hkeys
    by_cases hn : n = k
    · subst hn
      simp [List.lookup_cons, beq_eq_false_iff_ne.2 hne.symm]
    · simp [List.lookup_cons, beq_eq_false_iff_ne.2 hn]
  | trans h h' ih ih' => exact (ih hkeys).trans (ih' ((h.map Prod.fst).nodup_iff.1 hkeys))

/-- Key by key the members of both are the same but for their values. -/
theorem forall₂_members {ms us : List (Text × Json)} (hnames : us.map Prod.fst = ms.map Prod.fst)
    (hvalues : List.Forall₂ Settles (ms.map Prod.snd) (us.map Prod.snd)) :
    List.Forall₂ (fun m u => u.1 = m.1 ∧ Settles m.2 u.2) ms us := by
  induction ms generalizing us with
  | nil =>
    obtain rfl := List.map_eq_nil_iff.1 hnames
    exact .nil
  | cons m ms ih =>
    cases us with
    | nil => exact absurd hnames (by simp)
    | cons u us =>
      obtain ⟨hname, hnames⟩ := List.cons.inj hnames
      cases hvalues with
      | cons hvalue hvalues => exact .cons ⟨hname, hvalue⟩ (ih hnames hvalues)

theorem lookup_rel {ms us : List (Text × Json)}
    (h : List.Forall₂ (fun m u => u.1 = m.1 ∧ Settles m.2 u.2) ms us) (n : Text) :
    Option.Rel Settles (ms.lookup n) (us.lookup n) := by
  induction h with
  | nil => exact .none
  | @cons m u ms us hmember _ ih =>
    obtain ⟨hname, hvalue⟩ := hmember
    rw [List.lookup_cons, List.lookup_cons, hname]
    cases n == m.1 with
    | true => exact .some hvalue
    | false => exact ih

/-- The fields of a record are there in both or in none of the two, and what there is is settled. -/
theorem Settles.fields? (h : Settles j v) (names : List Text) :
    Option.Rel (List.Forall₂ (Option.Rel Settles)) (j.fields? names) (v.fields? names) := by
  cases h with
  | @array js vs hitems =>
    have hlength := hitems.length_eq
    simp only [Json.fields?, ← hlength]
    by_cases hmany : names.length < js.length
    · rw [if_pos hmany, if_pos hmany]
      exact .none
    · rw [if_neg hmany, if_neg hmany]
      refine .some (List.rel_append ?_ ?_)
      · exact List.rel_map (fun _ _ h => .some h) hitems
      · exact List.forall₂_same.2 fun a ha => by
          rw [List.eq_of_mem_replicate ha]
          exact .none
  | @object ms us ws hkeys hnames hvalues hperm horder =>
    have hkeysWs : (ws.map Prod.fst).Nodup := (hperm.map Prod.fst).nodup_iff.2 (hnames ▸ hkeys)
    rw [fields?_object hkeys, fields?_object hkeysWs]
    refine .some (List.rel_map (R := Eq) (fun n n' hn => ?_) (List.forall₂_refl names))
    rw [← hn, lookup_perm hperm hkeysWs]
    exact lookup_rel (forall₂_members hnames hvalues) n
  | _ => exact .none

/-- A record is read alike when what is made of its fields does not depend on which are settled. -/
theorem Steady.bind_fields? (names : List Text) {make : List (Option Json) → Option α}
    (hmake : ∀ as bs, List.Forall₂ (Option.Rel Settles) as bs → make bs = make as) :
    Steady fun j => (j.fields? names).bind make := by
  intro j v h
  show (v.fields? names).bind make = (j.fields? names).bind make
  have hfields := h.fields? names
  generalize j.fields? names = as at hfields ⊢
  generalize v.fields? names = bs at hfields ⊢
  cases hfields with
  | some hfields => exact hmake _ _ hfields
  | none => rfl

end Json

end SqlScribe
