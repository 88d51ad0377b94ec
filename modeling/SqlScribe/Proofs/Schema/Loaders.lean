import Mathlib.Data.List.Induction
import SqlScribe.Proofs.Json.Generic
import SqlScribe.Schema.Document

/-!
# Two ways to load a schema

A schema is loaded from a document or from a value in its own right. Where no object of the document
names a member twice, both accept the same and describe the same tables with the same columns. The
document gives them in the order in which they stand there, the value in the order of their names.
Main statements:

* `TableRecord.steady_ofMember?`: a table is read from both alike;
* `Schema.ofJson_eq_ok_iff`: the tables of a schema are those of the members, one by one;
* `Settles.ofJson_tables`: the schema of the value against that of the document;
* `Schema.ofGeneric_eq_iff_inNameOrder`: when the two agree.
-/

namespace SqlScribe

open Json

/-! ## Tables -/

theorem map_eq_map_of_forall₂ {α β γ : Type} {R : α → β → Prop} {f : α → γ} {g : β → γ}
    (hR : ∀ a b, R a b → g b = f a) {as : List α} {bs : List β} (h : List.Forall₂ R as bs) :
    bs.map g = as.map f := by
  induction h with
  | nil => rfl
  | cons hab _ ih => rw [List.map_cons, List.map_cons, hR _ _ hab, ih]

theorem Column.steady_ofJson? : Steady Column.ofJson? := by
  refine Steady.bind_fields? ["name", "type", "notNull", "primaryKey"] fun as bs h => ?_
  -- a list of another length than four is read as nothing
  rcases h with _ | ⟨hname, _ | ⟨htype, _ | ⟨hnotNull, _ | ⟨hprimaryKey, _ | _⟩⟩⟩⟩ <;> try rfl
  simp only [steady_text?.required? hname, steady_text?.orDefault? [] htype,
    steady_bool?.orDefault? false hnotNull, steady_bool?.orDefault? false hprimaryKey]

theorem TableRecord.steady_ofMember? (name : Text) : Steady (TableRecord.ofMember? name) := by
  refine Steady.bind_fields? ["columns", "description"] fun as bs h => ?_
  rcases h with _ | ⟨hcolumns, _ | ⟨hdescription, _ | _⟩⟩ <;> try rfl
  simp only [Column.steady_ofJson?.listOf?.required? hcolumns,
    steady_text?.orDefault? [] hdescription]

/-- The table that a member of a document gives. -/
def GivesTable (m : Text × Json) (t : Table) : Prop :=
  ∃ r, TableRecord.ofMember? m.1 m.2 = some r ∧ r.table = .ok t

theorem TableRecord.name_ofMember? {name : Text} {j : Json} {r : TableRecord}
    (h : TableRecord.ofMember? name j = some r) : r.name = name := by
  rw [TableRecord.ofMember?] at h
  obtain ⟨fields, -, h⟩ := Option.bind_eq_some_iff.1 h
  split at h
  · obtain ⟨columns, -, h⟩ := Option.bind_eq_some_iff.1 h
    obtain ⟨description, -, h⟩ := Option.bind_eq_some_iff.1 h
    exact (Option.some.inj h) ▸ rfl
  · exact absurd h (by simp)

theorem TableRecord.name_table {r : TableRecord} {t : Table} (h : r.table = .ok t) :
    t.name = r.name := by
  rw [TableRecord.table] at h
  split at h
  · exact absurd h (by simp)
  · split at h
    · exact absurd h (by simp)
    · exact (Except.ok.inj h) ▸ rfl

theorem GivesTable.name_eq {m : Text × Json} {t : Table} (h : GivesTable m t) : t.name = m.1 := by
  obtain ⟨r, hr, ht⟩ := h
  rw [TableRecord.name_table ht, TableRecord.name_ofMember? hr]

/-- The tables have the names of the members. -/
theorem GivesTable.map_name_eq {ms : List (Text × Json)} {ts : List Table}
    (h : List.Forall₂ GivesTable ms ts) : ts.map Table.name = ms.map Prod.fst :=
  map_eq_map_of_forall₂ (fun _ _ ht => ht.name_eq) h

/-! ## The order of names -/

/-- Something with a new name is put at the end. -/
theorem putByName_of_not_mem {α : Type} {name : α → Text} {x : α} {xs : List α}
    (h : name x ∉ xs.map name) : putByName name x xs = xs ++ [x] := by
  induction xs with
  | nil => rfl
  | cons y ys ih =>
    rw [List.map_cons, List.mem_cons, not_or] at h
    rw [putByName, if_neg (Ne.symm h.1), ih h.2]
    rfl

/-- Things with names of their own are kept as they are. -/
theorem lastByName_eq_self {α : Type} {name : α → Text} {xs : List α} (h : (xs.map name).Nodup) :
    lastByName name xs = xs := by
  induction xs using List.reverseRecOn with
  | nil => rfl
  | append_singleton xs x ih =>
    rw [List.map_append, List.map_singleton, List.nodup_append_comm, List.singleton_append,
      List.nodup_cons] at h
    have hxs : xs.foldl (fun acc x => putByName name x acc) [] = xs := ih h.2
    rw [lastByName, List.foldl_append, hxs, List.foldl_cons, List.foldl_nil,
      putByName_of_not_mem h.1]

/-! ## The tables of a schema -/

theorem mapM_eq_some_iff {α β : Type} {f : α → Option β} {as : List α} {bs : List β} :
    as.mapM f = some bs ↔ List.Forall₂ (fun a b => f a = some b) as bs := by
  induction as generalizing bs with
  | nil => simp [eq_comm]
  | cons a as ih =>
    rw [List.mapM_cons]
    constructor
    · intro h
      obtain ⟨b, hb, h⟩ := Option.bind_eq_some_iff.1 h
      obtain ⟨bs, hbs, h⟩ := Option.bind_eq_some_iff.1 h
      obtain rfl := Option.some.inj h
      exact .cons hb (ih.1 hbs)
    · rintro (_ | ⟨hb, hbs⟩)
      rw [hb, ih.2 hbs]
      rfl

theorem Schema.tablesOf_eq_ok_iff {rs : List TableRecord} {ts : List Table} :
    tablesOf rs = .ok ts ↔ List.Forall₂ (fun r t => r.table = .ok t) rs ts := by
  induction rs generalizing ts with
  | nil => simp [tablesOf, eq_comm]
  | cons r rs ih =>
    rw [tablesOf]
    constructor
    · intro h
      split at h
      · exact absurd h (by simp)
      · next t ht =>
        cases hts : tablesOf rs with
        | error e => exact absurd (hts ▸ h) (by simp [Except.map])
        | ok ts' =>
          rw [hts] at h
          exact Except.ok.inj h ▸ .cons ht (ih.1 hts)
    · rintro (_ | ⟨ht, hts⟩)
      rw [ht, ih.2 hts]
      rfl

theorem forall₂_givesTable_iff {ms : List (Text × Json)} {ts : List Table} :
    List.Forall₂ GivesTable ms ts ↔ ∃ rs,
      List.Forall₂ (fun m r => TableRecord.ofMember? m.1 m.2 = some r) ms rs ∧
        List.Forall₂ (fun r t => r.table = .ok t) rs ts := by
  constructor
  · intro h
    induction h with
    | nil => exact ⟨[], .nil, .nil⟩
    | cons ht _ ih =>
      obtain ⟨r, hr, ht⟩ := ht
      obtain ⟨rs, hrs, hts⟩ := ih
      exact ⟨r :: rs, .cons hr hrs, .cons ht hts⟩
  · rintro ⟨rs, hrs, hts⟩
    induction hrs generalizing ts with
    | nil =>
      cases hts
      exact .nil
    | cons hr _ ih =>
      cases hts with
      | cons ht hts => exact .cons ⟨_, hr, ht⟩ (ih hts)

/-- The tables of a schema are those of the members of the document. -/
theorem Schema.ofJson_eq_ok_iff {j : Json} {ms : List (Text × Json)} (hms : j.members? = some ms)
    (hkeys : (ms.map Prod.fst).Nodup) {s : Schema} :
    ofJson j = .ok s ↔ List.Forall₂ GivesTable ms s.tables := by
  have hrecords : ∀ {rs : List TableRecord},
      List.Forall₂ (fun m r => TableRecord.ofMember? m.1 m.2 = some r) ms rs →
        records? j = some rs := by
    intro rs hrs
    have hnames : rs.map TableRecord.name = ms.map Prod.fst :=
      map_eq_map_of_forall₂ (fun _ _ hr => TableRecord.name_ofMember? hr) hrs
    rw [records?, hms]
    simp only [mapM_eq_some_iff.2 hrs, Option.map_some, lastByName_eq_self (hnames.symm ▸ hkeys)]
  have htables : ∀ {ts : List Table}, List.Forall₂ GivesTable ms ts → ofTables ts = ⟨ts⟩ := by
    intro ts hts
    rw [ofTables, lastByName_eq_self ((GivesTable.map_name_eq hts).symm ▸ hkeys)]
  constructor
  · intro h
    cases hread : ms.mapM (fun m => TableRecord.ofMember? m.1 m.2) with
    | none =>
      rw [ofJson, records?, hms] at h
      simp only [hread, Option.map_none] at h
      exact absurd h (by simp)
    | some rs =>
      have hrs := mapM_eq_some_iff.1 hread
      simp only [ofJson, hrecords hrs, ofRecords] at h
      cases hts : tablesOf rs with
      | error e => exact absurd (hts ▸ h) (by simp [Except.map])
      | ok ts =>
        have hgives := forall₂_givesTable_iff.2 ⟨rs, hrs, tablesOf_eq_ok_iff.1 hts⟩
        rw [hts] at h
        obtain rfl : ofTables ts = s := Except.ok.inj h
        rwa [htables hgives]
  · intro h
    obtain ⟨rs, hrs, hts⟩ := forall₂_givesTable_iff.1 h
    simp only [ofJson, hrecords hrs, ofRecords, tablesOf_eq_ok_iff.2 hts]
    exact congrArg Except.ok (htables h)

/-! ## Two orders of the same tables -/

/-- The tables come in the order of their names. -/
def Schema.InNameOrder (s : Schema) : Prop := s.tables.Pairwise fun a b => a.name < b.name

instance (s : Schema) : Decidable s.InNameOrder :=
  inferInstanceAs (Decidable (s.tables.Pairwise fun a b => a.name < b.name))

/-- Members that differ only in whether they are settled give the same tables. -/
theorem forall₂_givesTable_of_settles {ms us : List (Text × Json)}
    (h : List.Forall₂ (fun m u => u.1 = m.1 ∧ Settles m.2 u.2) ms us) {ts : List Table} :
    List.Forall₂ GivesTable us ts ↔ List.Forall₂ GivesTable ms ts := by
  induction h generalizing ts with
  | nil => rfl
  | cons hmember _ ih =>
    obtain ⟨hname, hvalue⟩ := hmember
    cases ts with
    | nil => simp
    | cons t ts =>
      rw [List.forall₂_cons, List.forall₂_cons, ih, GivesTable, GivesTable, hname,
        TableRecord.steady_ofMember? _ hvalue]

/-- Members in the order of their keys give tables in the order of their names. -/
theorem pairwise_name_of_inOrder {ms : List (Text × Json)} (horder : InOrder ms) {ts : List Table}
    (h : List.Forall₂ GivesTable ms ts) : ts.Pairwise fun a b => a.name < b.name := by
  rw [InOrder, ← List.pairwise_map (R := fun a b => a < b) (f := Prod.fst),
    ← GivesTable.map_name_eq h] at horder
  exact List.pairwise_map.1 horder

/-- There is one order of names. -/
theorem Schema.InNameOrder.eq_of_perm {s s' : Schema} (h : s.InNameOrder) (h' : s'.InNameOrder)
    (hperm : s.tables.Perm s'.tables) : s = s' := by
  obtain ⟨ts⟩ := s
  obtain ⟨ts'⟩ := s'
  exact congrArg Schema.mk (hperm.eq_of_pairwise
    (fun a b _ _ hab hba => absurd hba (List.lt_asymm hab)) h h')

/-- Read from a value in its own right the tables are the same, in the order of their names. -/
theorem Json.Settles.ofJson_tables {j v : Json} (h : Settles j v) :
    (∀ s', Schema.ofJson v = .ok s' →
      s'.InNameOrder ∧ ∃ s, Schema.ofJson j = .ok s ∧ s'.tables.Perm s.tables) ∧
    ∀ s, Schema.ofJson j = .ok s → ∃ s', Schema.ofJson v = .ok s' := by
  cases h with
  | @object ms us ws hkeys hnames hvalues hperm horder =>
    have hkeysWs : (ws.map Prod.fst).Nodup := (hperm.map Prod.fst).nodup_iff.2 (hnames ▸ hkeys)
    have hvalue : ∀ s, Schema.ofJson (Json.object (ws.map put)) = .ok s ↔
        List.Forall₂ GivesTable ws s.tables := fun s =>
      Schema.ofJson_eq_ok_iff (members?_put ws) hkeysWs
    have hdocument : ∀ s, Schema.ofJson (Json.object (ms.map put)) = .ok s ↔
        List.Forall₂ GivesTable us s.tables := fun s =>
      (Schema.ofJson_eq_ok_iff (members?_put ms) hkeys).trans
        (forall₂_givesTable_of_settles (forall₂_members hnames hvalues)).symm
    constructor
    · intro s' hs'
      rw [hvalue] at hs'
      obtain ⟨ts, hts, htables⟩ := List.perm_comp_forall₂ hperm.symm hs'
      exact ⟨pairwise_name_of_inOrder horder hs', ⟨ts⟩, (hdocument _).2 hts, htables.symm⟩
    · intro s hs
      rw [hdocument] at hs
      obtain ⟨ts, hts, -⟩ := List.perm_comp_forall₂ hperm hs
      exact ⟨⟨ts⟩, (hvalue _).2 hts⟩
  | _ =>
    refine ⟨fun s' hs' => absurd hs' ?_, fun s hs => absurd hs ?_⟩ <;>
      simp [Schema.ofJson, Schema.records?, members?]

/-- **When the two agree.** Of a document in which no object names a member twice: the value in its
own right is accepted, if there is one, exactly when the document is, and describes the same tables
with the same columns. It gives them in the order of their names, so it gives the same schema
exactly if the document has its tables in that order. -/
theorem Schema.ofGeneric_eq_iff_inNameOrder {document : Text} {j : Json}
    (hparse : Json.parse? document = some j) (hkeys : j.keysOnce = true) :
    ((∃ s', ofGeneric j = .ok s') ↔
      j.generic?.isSome = true ∧ ∃ s, ofDocument document = .ok s) ∧
    ∀ s s', ofDocument document = .ok s → ofGeneric j = .ok s' →
      s'.tables.Perm s.tables ∧ s'.InNameOrder ∧ (s' = s ↔ s.InNameOrder) := by
  have hdocument : ofDocument document = ofJson j := by rw [ofDocument, hparse]
  rw [hdocument, ofGeneric]
  cases hgeneric : j.generic? with
  | none => exact ⟨by simp, fun s s' _ hs' => absurd hs' (by simp)⟩
  | some v =>
    obtain ⟨hof, hexists⟩ := (settles_of_generic? hkeys hgeneric).ofJson_tables
    constructor
    · constructor
      · rintro ⟨s', hs'⟩
        obtain ⟨-, s, hs, -⟩ := hof s' hs'
        exact ⟨rfl, s, hs⟩
      · rintro ⟨-, s, hs⟩
        exact hexists s hs
    · intro s s' hs hs'
      obtain ⟨horder, s₀, hs₀, hperm⟩ := hof s' hs'
      obtain rfl : s = s₀ := Except.ok.inj (hs.symm.trans hs₀)
      refine ⟨hperm, horder, ?_, fun h => horder.eq_of_perm h hperm⟩
      rintro rfl
      exact horder

/-- A document with two tables of one column each. -/
def twoTables (a b : Text) : Text :=
  "\x7b\"" ++ a ++ "\":\x7b\"columns\":[\x7b\"name\":\"id\"\x7d]\x7d,\"" ++ b ++
    "\":\x7b\"columns\":[\x7b\"name\":\"id\"\x7d]\x7d\x7d"

/-- The two tables in the order in which they are described. -/
def twoTablesSchema (a b : Text) : Schema :=
  ⟨[⟨a, [], [.optional "id" []]⟩, ⟨b, [], [.optional "id" []]⟩]⟩

/-- Two tables in the order of their names. -/
theorem Schema.ofGeneric_eq_twoTables : ∃ j, Json.parse? (twoTables "a" "b") = some j ∧
    j.keysOnce = true ∧ ofDocument (twoTables "a" "b") = .ok (twoTablesSchema "a" "b") ∧
      ofGeneric j = .ok (twoTablesSchema "a" "b") := by
  obtain ⟨j, hparse, hj⟩ := Option.map_eq_some_iff.1 (show (Json.parse? (twoTables "a" "b")).map
    (fun j => (j.keysOnce, j.generic?.isSome)) = some (true, true) by decide +kernel)
  obtain ⟨hkeys, hgeneric⟩ := Prod.mk.inj hj
  have hdocument : ofDocument (twoTables "a" "b") = .ok (twoTablesSchema "a" "b") := by
    decide +kernel
  obtain ⟨haccepts, hagree⟩ := ofGeneric_eq_iff_inNameOrder hparse hkeys
  obtain ⟨s', hs'⟩ := haccepts.2 ⟨hgeneric, _, hdocument⟩
  obtain ⟨-, -, hsame⟩ := hagree _ s' hdocument hs'
  rw [hsame.2 (by decide)] at hs'
  exact ⟨j, hparse, hkeys, hdocument, hs'⟩

/-- In another order they are not loaded alike. -/
theorem Schema.not_ofGeneric_eq : ¬ ∀ (document : Text) (j : Json) (s : Schema),
    Json.parse? document = some j → j.keysOnce = true → ofDocument document = .ok s →
      ofGeneric j = .ok s := by
  intro h
  obtain ⟨j, hparse, hj⟩ := Option.map_eq_some_iff.1 (show (Json.parse? (twoTables "b" "a")).map
    (fun j => (j.keysOnce, ofGeneric j))
      = some (true, .ok (twoTablesSchema "a" "b")) by decide +kernel)
  obtain ⟨hkeys, hvalue⟩ := Prod.mk.inj hj
  have hdocument : ofDocument (twoTables "b" "a") = .ok (twoTablesSchema "b" "a") := by
    decide +kernel
  exact absurd (hvalue.symm.trans (h _ j _ hparse hkeys hdocument)) (by decide)

end SqlScribe
