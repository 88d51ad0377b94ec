import SqlScribe.Proofs.Schema.Loaders

/-!
# What the records of a document are stored as

The records of a document give a schema exactly if each has a column and none names a column twice;
otherwise the first record with something wrong is reported. The schema holds every table and every
column once, in the order of the document, and finds it under its own name. Main statements:

* `TableRecord.table_eq_ok_iff`, `TableRecord.table_eq_error_iff`: what one record gives;
* `Schema.tablesOf_eq_ok_iff_sound`, `Schema.tablesOf_eq_error_iff`: what all of them give;
* `Schema.storeRecords_eq`: kept in stores with keys of their own, tables and columns have their
  names as keys;
* `Schema.ofRecords_describes_or_faults`: what loading a schema does.
-/

namespace SqlScribe

/-! ## Names that are there once -/

section Names

variable {α β : Type} {name : α → Text} {name' : β → Text} {f : α → β} {x : α} {xs : List α}
    {n : Text}

/-- Where things have names of their own, the one found under a name is the one that has it. -/
theorem find?_name_eq_some_iff (hnames : (xs.map name).Nodup) :
    xs.find? (fun y => name y == n) = some x ↔ x ∈ xs ∧ name x = n := by
  constructor
  · intro h
    exact ⟨List.mem_of_find?_eq_some h, by simpa using List.find?_some h⟩
  · rintro ⟨hx, rfl⟩
    induction xs with
    | nil => exact absurd hx List.not_mem_nil
    | cons y ys ih =>
      rw [List.map_cons, List.nodup_cons] at hnames
      rcases List.mem_cons.1 hx with rfl | hx
      · simp
      · have hne : name y ≠ name x := fun h => hnames.1 (h ▸ List.mem_map_of_mem hx)
        rw [List.find?_cons_of_neg (by simpa using hne)]
        exact ih hnames.2 hx

/-- Something is found under a name if something has it. -/
theorem isSome_find?_name : (xs.find? fun y => name y == n).isSome = true ↔ n ∈ xs.map name := by
  simp [List.find?_isSome, List.mem_map]

/-- It makes no difference whether things are changed before or after one is put among them, so long
as they keep their names. -/
theorem map_putByName (hf : ∀ y, name' (f y) = name y) :
    (putByName name x xs).map f = putByName name' (f x) (xs.map f) := by
  induction xs with
  | nil => rfl
  | cons y ys ih =>
    rw [List.map_cons, putByName, putByName, hf, hf]
    split
    · rfl
    · rw [List.map_cons, ih]

theorem map_foldl_putByName (name : α → Text) (name' : β → Text) (f : α → β)
    (hf : ∀ y, name' (f y) = name y) (xs acc : List α) :
    (xs.foldl (fun acc x => putByName name x acc) acc).map f =
      (xs.map f).foldl (fun acc x => putByName name' x acc) (acc.map f) := by
  induction xs generalizing acc with
  | nil => rfl
  | cons x xs ih => rw [List.foldl_cons, ih, map_putByName hf, List.map_cons, List.foldl_cons]

/-- The names after something is put among the others: its name is new or was there. -/
theorem map_name_putByName : (putByName name x xs).map name =
    if name x ∈ xs.map name then xs.map name else xs.map name ++ [name x] := by
  induction xs with
  | nil => rfl
  | cons y ys ih =>
    rw [putByName]
    by_cases hy : name y = name x
    · simp [hy]
    · rw [if_neg hy, List.map_cons, List.map_cons, ih]
      simp only [List.mem_cons, Ne.symm hy, false_or]
      split <;> rfl

theorem nodup_map_putByName (hnames : (xs.map name).Nodup) :
    ((putByName name x xs).map name).Nodup := by
  rw [map_name_putByName]
  split
  · exact hnames
  · next hnew => exact List.concat_eq_append ▸ hnames.concat hnew

/-- Of each name one is kept. -/
theorem nodup_map_lastByName : ((lastByName name xs).map name).Nodup := by
  induction xs using List.reverseRecOn with
  | nil => exact List.nodup_nil
  | append_singleton xs x ih =>
    rw [lastByName, List.foldl_append]
    exact nodup_map_putByName ih

end Names

/-! ## What is wrong with a record -/

/-- A name that was seen is not there once. -/
theorem not_nodup_reverse_append {seen names : List Text} {n : Text} (h : n ∈ seen) :
    ¬ (seen.reverse ++ n :: names).Nodup := fun hnodup =>
  (List.nodup_append.1 hnodup).2.2 n (List.mem_reverse.2 h) n List.mem_cons_self rfl

/-- The first column whose name is there already stands behind names that are there once. -/
theorem repeatedColumn?_eq_some_iff {seen : List Text} (hseen : seen.Nodup) (cs : List Column)
    {n : Text} : repeatedColumn? seen cs = some n ↔ ∃ front c behind, cs = front ++ c :: behind ∧
      (seen.reverse ++ front.map Column.name).Nodup ∧
        c.name ∈ seen.reverse ++ front.map Column.name ∧ c.name = n := by
  induction cs generalizing seen with
  | nil => simp [repeatedColumn?]
  | cons d cs ih =>
    rw [repeatedColumn?]
    split
    · next hd =>
      have hd : d.name ∈ seen := List.contains_iff_mem.1 hd
      constructor
      · intro h
        exact ⟨[], d, cs, rfl, by simpa using hseen, by simpa using hd, Option.some.inj h⟩
      · rintro ⟨front, c, behind, hsplit, hnodup, -, rfl⟩
        cases front with
        | nil => rw [(List.cons.inj hsplit).1]
        | cons e front =>
          obtain ⟨rfl, -⟩ := List.cons.inj hsplit
          exact absurd hnodup (not_nodup_reverse_append hd)
    · next hd =>
      have hd : d.name ∉ seen := fun h => hd (List.contains_iff_mem.2 h)
      rw [ih (List.nodup_cons.2 ⟨hd, hseen⟩)]
      -- what was seen and the columns in front make one list of names, from wherever it is cut
      have hmove : ∀ front : List Column, (d.name :: seen).reverse ++ front.map Column.name =
          seen.reverse ++ (d :: front).map Column.name := by simp
      constructor
      · rintro ⟨front, c, behind, rfl, hnodup, hc, rfl⟩
        exact ⟨d :: front, c, behind, rfl, hmove front ▸ hnodup, hmove front ▸ hc, rfl⟩
      · rintro ⟨front, c, behind, hsplit, hnodup, hc, rfl⟩
        cases front with
        | nil =>
          obtain ⟨rfl, -⟩ := List.cons.inj hsplit
          exact absurd (by simpa using hc) hd
        | cons e front =>
          obtain ⟨rfl, rfl⟩ := List.cons.inj hsplit
          exact ⟨front, c, behind, rfl, hmove front ▸ hnodup, hmove front ▸ hc, rfl⟩

theorem repeatedColumn?_eq_none_iff {seen : List Text} (hseen : seen.Nodup) (cs : List Column) :
    repeatedColumn? seen cs = none ↔ (seen.reverse ++ cs.map Column.name).Nodup := by
  induction cs generalizing seen with
  | nil => simpa [repeatedColumn?] using hseen
  | cons d cs ih =>
    rw [repeatedColumn?]
    split
    · next hd =>
      have hd : d.name ∈ seen := List.contains_iff_mem.1 hd
      simp only [reduceCtorEq, false_iff]
      exact not_nodup_reverse_append hd
    · next hd =>
      have hd : d.name ∉ seen := fun h => hd (List.contains_iff_mem.2 h)
      rw [ih (List.nodup_cons.2 ⟨hd, hseen⟩)]
      simp

namespace TableRecord

variable {r : TableRecord}

/-- There are columns, and each has a name of its own. -/
def Sound (r : TableRecord) : Prop := r.columns ≠ [] ∧ (r.columns.map Column.name).Nodup

instance (r : TableRecord) : Decidable r.Sound := inferInstanceAs (Decidable (_ ∧ _))

/-- What is wrong with the record. A column that is named again is the first one that is: the
columns in front of it have names of their own, and its name is one of these. -/
inductive Fault (r : TableRecord) : SchemaError → Prop
  /-- There are no columns. -/
  | empty (hcolumns : r.columns = []) : Fault r (.emptyTable r.name)
  /-- A column is named again. -/
  | repeated {front behind : List Column} {c : Column} (hcolumns : r.columns = front ++ c :: behind)
      (hfront : (front.map Column.name).Nodup) (hc : c.name ∈ front.map Column.name) :
      Fault r (.duplicateColumn r.name c.name)

/-- The table with the columns of the record. -/
def described (r : TableRecord) : Table := ⟨r.name, r.description, r.columns⟩

theorem table_eq_ok_iff {t : Table} : r.table = .ok t ↔ r.Sound ∧ r.described = t := by
  have hnone := repeatedColumn?_eq_none_iff List.nodup_nil r.columns
  rw [List.reverse_nil, List.nil_append] at hnone
  rw [table, Sound, ← hnone]
  split
  · next hempty => simp [List.isEmpty_iff.1 hempty]
  · next hempty =>
    have hne : r.columns ≠ [] := fun h => hempty (List.isEmpty_iff.2 h)
    split
    · next c hc => simp [hc]
    · next hc => simp [hc, hne, described]

theorem table_eq_error_iff {e : SchemaError} : r.table = .error e ↔ r.Fault e := by
  have hsome := fun n => repeatedColumn?_eq_some_iff List.nodup_nil r.columns (n := n)
  simp only [List.reverse_nil, List.nil_append] at hsome
  rw [table]
  split
  · next hempty =>
    have hempty : r.columns = [] := List.isEmpty_iff.1 hempty
    constructor
    · intro h
      exact Except.error.inj h ▸ .empty hempty
    · rintro (_ | ⟨hcolumns, -, -⟩)
      · rfl
      · exact absurd (hempty.symm.trans hcolumns) (by simp)
  · next hempty =>
    have hne : r.columns ≠ [] := fun h => hempty (List.isEmpty_iff.2 h)
    constructor
    · intro h
      split at h
      · next n hn =>
        obtain ⟨front, c, behind, hcolumns, hfront, hc, rfl⟩ := (hsome n).1 hn
        exact Except.error.inj h ▸ .repeated hcolumns hfront hc
      · exact absurd h (by simp)
    · rintro (hcolumns | ⟨hcolumns, hfront, hc⟩)
      · exact absurd hcolumns hne
      · rw [(hsome _).2 ⟨_, _, _, hcolumns, hfront, hc, rfl⟩]

end TableRecord

/-! ## The first record with something wrong -/

namespace Schema

open TableRecord

variable {rs : List TableRecord} {r : TableRecord} {e : SchemaError}

/-- What is wrong with the first record that has something wrong. -/
def FirstFault (rs : List TableRecord) (e : SchemaError) : Prop :=
  ∃ front r behind, rs = front ++ r :: behind ∧ (∀ q ∈ front, q.Sound) ∧ r.Fault e

theorem firstFault_cons : FirstFault (r :: rs) e ↔ r.Fault e ∨ r.Sound ∧ FirstFault rs e := by
  constructor
  · rintro ⟨front, q, behind, hsplit, hfront, hfault⟩
    cases front with
    | nil =>
      obtain ⟨rfl, -⟩ := List.cons.inj hsplit
      exact .inl hfault
    | cons p front =>
      obtain ⟨rfl, rfl⟩ := List.cons.inj hsplit
      rw [List.forall_mem_cons] at hfront
      exact .inr ⟨hfront.1, front, q, behind, rfl, hfront.2, hfault⟩
  · rintro (hfault | ⟨hsound, front, q, behind, rfl, hfront, hfault⟩)
    · exact ⟨[], r, rs, rfl, by simp, hfault⟩
    · exact ⟨r :: front, q, behind, rfl, List.forall_mem_cons.2 ⟨hsound, hfront⟩, hfault⟩

theorem tablesOf_eq_ok_iff_sound {ts : List Table} :
    tablesOf rs = .ok ts ↔ (∀ r ∈ rs, r.Sound) ∧ rs.map described = ts := by
  rw [tablesOf_eq_ok_iff]
  simp only [table_eq_ok_iff]
  induction rs generalizing ts with
  | nil => simp [eq_comm]
  | cons r rs ih =>
    rw [List.forall_mem_cons, List.map_cons]
    constructor
    · rintro (_ | ⟨⟨hsound, rfl⟩, hrest⟩)
      obtain ⟨hall, rfl⟩ := ih.1 hrest
      exact ⟨⟨hsound, hall⟩, rfl⟩
    · rintro ⟨⟨hsound, hrest⟩, rfl⟩
      exact .cons ⟨hsound, rfl⟩ (ih.2 ⟨hrest, rfl⟩)

theorem tablesOf_eq_error_iff : tablesOf rs = .error e ↔ FirstFault rs e := by
  induction rs with
  | nil => simp [tablesOf, FirstFault]
  | cons r rs ih =>
    rw [tablesOf, firstFault_cons, ← table_eq_error_iff]
    cases htable : r.table with
    | error e' =>
      have hsound : ¬ r.Sound := fun h => by simp [table_eq_ok_iff.2 ⟨h, rfl⟩] at htable
      simp [hsound]
    | ok t =>
      have hsound := (table_eq_ok_iff.1 htable).1
      cases htables : tablesOf rs <;> simp [hsound, ← ih, htables, Except.map]

end Schema

/-! ## Stores -/

/-- Things under keys, in the order in which the keys first came up. -/
abbrev Store (α : Type) := List (Text × α)

namespace Store

variable {α β : Type}

/-- The store with `x` under the key, in the place of what was under it. -/
def put (key : Text) (x : α) (s : Store α) : Store α := putByName Prod.fst (key, x) s

/-- What is under the key. -/
def get? (s : Store α) (key : Text) : Option α := (s.find? fun e => e.1 == key).map Prod.snd

/-- Whether there is something under the key. -/
def hasKey (s : Store α) (key : Text) : Bool := (s.get? key).isSome

/-- The keys in order. -/
def keys (s : Store α) : List Text := s.map Prod.fst

theorem hasKey_iff {s : Store α} {key : Text} : s.hasKey key = true ↔ key ∈ s.keys := by
  rw [hasKey, get?, Option.isSome_map, isSome_find?_name, keys]

/-- Things with their names as keys. -/
def ofNamed (name : α → Text) (f : α → β) (xs : List α) : Store β := xs.map fun x => (name x, f x)

@[simp]
theorem keys_ofNamed (name : α → Text) (f : α → β) (xs : List α) :
    (ofNamed name f xs).keys = xs.map name := by
  simp [keys, ofNamed]

/-- Under a key is the first thing of this name. -/
theorem get?_ofNamed {name : α → Text} {f : α → β} {xs : List α} {n : Text} :
    (ofNamed name f xs).get? n = (xs.find? fun x => name x == n).map f := by
  rw [get?, ofNamed, List.find?_map, Option.map_map]
  rfl

end Store

/-! ## Records in stores -/

/-- A table with its columns in a store. -/
structure StoredTable where
  name : Text
  description : Text
  columns : Store Column
deriving DecidableEq, Repr

/-- The columns put one by one into a store, up to one whose name is a key already. -/
def storeColumns (table : Text) : List Column → Store Column → Except SchemaError (Store Column)
  | [], s => .ok s
  | c :: cs, s =>
      if s.hasKey c.name then .error (.duplicateColumn table c.name)
      else storeColumns table cs (s.put c.name c)

/-- The table of a record with its columns in a store. -/
def TableRecord.store (r : TableRecord) : Except SchemaError StoredTable :=
  if r.columns.isEmpty then .error (.emptyTable r.name)
  else (storeColumns r.name r.columns []).map fun columns => ⟨r.name, r.description, columns⟩

/-- The tables of records, up to the first one with something wrong. -/
def storeTables : List TableRecord → Except SchemaError (List StoredTable)
  | [] => .ok []
  | r :: rs =>
      match r.store with
      | .error e => .error e
      | .ok t => (storeTables rs).map (t :: ·)

/-- The tables of records put one by one into a store, each under its name. -/
def Schema.storeRecords (rs : List TableRecord) : Except SchemaError (Store StoredTable) :=
  (storeTables rs).map fun ts => ts.foldl (fun s t => Store.put t.name t s) []

/-- The table with its columns in a store, each under its name. -/
def Table.stored (t : Table) : StoredTable :=
  ⟨t.name, t.description, Store.ofNamed Column.name id t.columns⟩

/-- The schema as a store of its tables, each under its name. -/
def Schema.stored (s : Schema) : Store StoredTable := Store.ofNamed Table.name Table.stored s.tables

/-- Columns go into the store behind those that are there, unless one has the name of an earlier
one. -/
theorem storeColumns_ofNamed (table : Text) (front cs : List Column) :
    storeColumns table cs (Store.ofNamed Column.name id front) =
      match repeatedColumn? (front.map Column.name).reverse cs with
      | some n => .error (.duplicateColumn table n)
      | none => .ok (Store.ofNamed Column.name id (front ++ cs)) := by
  induction cs generalizing front with
  | nil => simp [storeColumns, repeatedColumn?]
  | cons c cs ih =>
    rw [storeColumns, repeatedColumn?]
    by_cases hc : c.name ∈ front.map Column.name
    · rw [if_pos (Store.hasKey_iff.2 (by rwa [Store.keys_ofNamed])),
        if_pos (List.contains_iff_mem.2 (List.mem_reverse.2 hc))]
    · have hput : (Store.ofNamed Column.name id front).put c.name c =
          Store.ofNamed Column.name id (front ++ [c]) := by
        rw [Store.put, putByName_of_not_mem (by simpa [Store.ofNamed] using hc)]
        simp [Store.ofNamed]
      rw [if_neg (fun h => hc (by simpa using Store.hasKey_iff.1 h)),
        if_neg (fun h => hc (List.mem_reverse.1 (List.contains_iff_mem.1 h))), hput, ih]
      simp

theorem TableRecord.store_eq (r : TableRecord) : r.store = r.table.map Table.stored := by
  have hcolumns := storeColumns_ofNamed r.name [] r.columns
  rw [show Store.ofNamed Column.name id [] = [] from rfl, List.map_nil, List.reverse_nil,
    List.nil_append] at hcolumns
  rw [store, table, hcolumns]
  split
  · rfl
  · cases repeatedColumn? [] r.columns <;> rfl

theorem storeTables_eq (rs : List TableRecord) :
    storeTables rs = (Schema.tablesOf rs).map (List.map Table.stored) := by
  induction rs with
  | nil => rfl
  | cons r rs ih =>
    rw [storeTables, Schema.tablesOf, r.store_eq, ih]
    cases r.table with
    | error e => rfl
    | ok t => cases Schema.tablesOf rs <;> rfl

namespace Schema

/-- The tables put one by one into a store are kept there as the schema keeps them. -/
theorem stored_ofTables (ts : List Table) :
    (ts.map Table.stored).foldl (fun s t => Store.put t.name t s) [] = (ofTables ts).stored := by
  have hfold := map_foldl_putByName Table.name Prod.fst (fun t : Table => (t.name, t.stored))
    (fun _ => rfl) ts []
  rw [stored, Store.ofNamed, ofTables, lastByName, hfold, List.foldl_map, List.foldl_map]
  rfl

/-- Put into stores with keys of their own, tables and columns have their names as keys. -/
theorem storeRecords_eq (rs : List TableRecord) : storeRecords rs = (ofRecords rs).map stored := by
  rw [storeRecords, ofRecords, storeTables_eq]
  cases tablesOf rs with
  | error e => rfl
  | ok ts => exact congrArg Except.ok (stored_ofTables ts)

end Schema

/-! ## What a schema describes -/

/-- The table describes what the record does, and keeps every column under its name. -/
structure Table.Describes (t : Table) (r : TableRecord) : Prop where
  name_eq : t.name = r.name
  description_eq : t.description = r.description
  columns_eq : t.columns = r.columns
  columnNames_eq : t.columnNames = r.columns.map Column.name
  /-- Under a name is the column of the record that has it. -/
  column?_iff : ∀ m c, t.column? m = some c ↔ c ∈ r.columns ∧ c.name = m
  hasColumn_iff : ∀ m, t.hasColumn m = true ↔ ∃ c ∈ r.columns, c.name = m
  keys_stored : t.stored.columns.keys = t.columnNames
  get?_stored : ∀ m, t.stored.columns.get? m = t.column? m
  key_eq_name : ∀ e ∈ t.stored.columns, e.1 = e.2.name

/-- The schema describes what the records do, and keeps every table under its name. -/
structure Schema.Describes (s : Schema) (rs : List TableRecord) : Prop where
  tables_eq : s.tables = rs.map TableRecord.described
  described : ∀ r ∈ rs, r.described.Describes r
  /-- Under a name is the table of the record that has it. -/
  table?_iff : ∀ n t, s.table? n = some t ↔ ∃ r ∈ rs, r.name = n ∧ r.described = t
  hasTable_iff : ∀ n, s.hasTable n = true ↔ ∃ r ∈ rs, r.name = n
  hasColumn_iff : ∀ n m, s.hasColumn n m = true ↔
    ∃ r ∈ rs, r.name = n ∧ ∃ c ∈ r.columns, c.name = m
  keys_stored : s.stored.keys = rs.map TableRecord.name
  get?_stored : ∀ n, s.stored.get? n = (s.table? n).map Table.stored
  key_eq_name : ∀ e ∈ s.stored, e.1 = e.2.name

theorem Table.get?_stored {t : Table} {m : Text} : t.stored.columns.get? m = t.column? m := by
  rw [stored, Store.get?_ofNamed, Option.map_id, id, column?]

theorem Schema.get?_stored {s : Schema} {n : Text} :
    s.stored.get? n = (s.table? n).map Table.stored := by
  rw [stored, Store.get?_ofNamed, table?]

theorem TableRecord.Sound.describes {r : TableRecord} (h : r.Sound) : r.described.Describes r where
  name_eq := rfl
  description_eq := rfl
  columns_eq := rfl
  columnNames_eq := rfl
  column?_iff _ _ := find?_name_eq_some_iff h.2
  hasColumn_iff _ := isSome_find?_name.trans List.mem_map
  keys_stored := Store.keys_ofNamed _ _ _
  get?_stored _ := Table.get?_stored
  key_eq_name := by simp [Table.stored, Store.ofNamed]

namespace Schema

open TableRecord

variable {rs : List TableRecord} {s : Schema}

theorem ofRecords_eq_ok_iff (hnames : (rs.map TableRecord.name).Nodup) :
    ofRecords rs = .ok s ↔ (∀ r ∈ rs, r.Sound) ∧ s = ⟨rs.map described⟩ := by
  have htables : ofTables (rs.map described) = ⟨rs.map described⟩ := by
    have hnames' : ((rs.map described).map Table.name).Nodup := by
      rwa [List.map_map, show Table.name ∘ described = TableRecord.name from rfl]
    rw [ofTables, lastByName_eq_self hnames']
  rw [ofRecords]
  cases hts : tablesOf rs with
  | error e =>
    have hsound : ¬ ∀ r ∈ rs, r.Sound := fun h => by
      simp [tablesOf_eq_ok_iff_sound.2 ⟨h, rfl⟩] at hts
    simp [Except.map, hsound]
  | ok ts =>
    obtain ⟨hsound, rfl⟩ := tablesOf_eq_ok_iff_sound.1 hts
    simp only [Except.map, htables, Except.ok.injEq]
    exact ⟨fun h => ⟨hsound, h.symm⟩, fun h => h.2.symm⟩

theorem ofRecords_eq_error_iff {e : SchemaError} : ofRecords rs = .error e ↔ FirstFault rs e := by
  rw [← tablesOf_eq_error_iff, ofRecords]
  cases tablesOf rs <;> simp [Except.map]

/-- The tables of sound records with names of their own describe what the records do. -/
theorem describes_of_sound (hnames : (rs.map TableRecord.name).Nodup) (hsound : ∀ r ∈ rs, r.Sound) :
    Describes ⟨rs.map described⟩ rs := by
  have htable : ∀ n t, Schema.table? ⟨rs.map described⟩ n = some t ↔
      ∃ r ∈ rs, r.name = n ∧ r.described = t := by
    intro n t
    rw [table?, List.find?_map, Option.map_eq_some_iff]
    refine exists_congr fun r => ?_
    rw [← and_assoc]
    exact and_congr_left' (find?_name_eq_some_iff hnames)
  exact {
    tables_eq := rfl
    described := fun r hr => (hsound r hr).describes
    table?_iff := htable
    hasTable_iff := fun n => by
      rw [hasTable, Option.isSome_iff_exists]
      simp only [htable]
      grind
    hasColumn_iff := fun n m => by
      rw [hasColumn, Option.any_eq_true]
      constructor
      · rintro ⟨t, ht, hm⟩
        obtain ⟨r, hr, hn, rfl⟩ := (htable n t).1 ht
        exact ⟨r, hr, hn, ((hsound r hr).describes.hasColumn_iff m).1 hm⟩
      · rintro ⟨r, hr, hn, hm⟩
        exact ⟨_, (htable n _).2 ⟨r, hr, hn, rfl⟩, ((hsound r hr).describes.hasColumn_iff m).2 hm⟩
    keys_stored := by simp [stored, TableRecord.described]
    get?_stored := fun n => get?_stored
    key_eq_name := by simp [stored, Store.ofNamed, Table.stored] }

/-- The records of a document have names of their own, and the schema of the document is theirs. -/
theorem ofJson_of_records? {j : Json} (h : records? j = some rs) :
    (rs.map TableRecord.name).Nodup ∧ ofJson j = ofRecords rs := by
  refine ⟨?_, by rw [ofJson, h]⟩
  rw [records?] at h
  split at h
  · exact absurd h (by simp)
  · obtain ⟨qs, -, rfl⟩ := Option.map_eq_some_iff.1 h
    exact nodup_map_lastByName

/-- **What loading a schema does.** The records of a document have names of their own. Such records
give a schema exactly if each has a column and none names a column twice; what is reported otherwise
is what is wrong with the first record that has something wrong. The schema holds the tables and
columns of the records in their order, each under its own name, and every way to ask it answers with
them. It is what comes of putting them one by one into stores under their names. -/
theorem ofRecords_describes_or_faults :
    (∀ j rs, records? j = some rs → (rs.map TableRecord.name).Nodup ∧ ofJson j = ofRecords rs) ∧
    ∀ rs : List TableRecord, (rs.map TableRecord.name).Nodup →
      ((∃ s, ofRecords rs = .ok s) ↔ ∀ r ∈ rs, r.Sound) ∧
      (∀ e, ofRecords rs = .error e ↔ FirstFault rs e) ∧
      (∀ s, ofRecords rs = .ok s → s.Describes rs) ∧
      storeRecords rs = (ofRecords rs).map stored := by
  refine ⟨fun _ _ => ofJson_of_records?, fun rs hnames => ⟨?_, fun _ => ofRecords_eq_error_iff, ?_,
    storeRecords_eq rs⟩⟩
  · simp [ofRecords_eq_ok_iff hnames]
  · intro s hs
    obtain ⟨hsound, rfl⟩ := (ofRecords_eq_ok_iff hnames).1 hs
    exact describes_of_sound hnames hsound

/-- The document with two tables describes what is kept of it; without columns, or with a column
twice, the second of two tables is reported. -/
theorem ofRecords_describes_or_faults_twoTables :
    (∃ j rs, Json.parse? (twoTables "b" "a") = some j ∧ records? j = some rs ∧
      ∃ s, ofRecords rs = .ok s ∧ s.Describes rs) ∧
    ofRecords [⟨"b", [.optional "id" []], []⟩, ⟨"a", [], []⟩] = .error (.emptyTable "a") ∧
    ofRecords [⟨"b", [.optional "id" []], []⟩,
      ⟨"a", [.optional "id" [], .optional "x" [], .optional "id" []], []⟩] =
        .error (.duplicateColumn "a" "id") := by
  obtain ⟨hdocument, hrecords⟩ := ofRecords_describes_or_faults
  refine ⟨?_, ?_, ?_⟩
  · obtain ⟨j, hparse, hj⟩ := Option.map_eq_some_iff.1 (show (Json.parse? (twoTables "b" "a")).map
      records? = some (some [⟨"b", [.optional "id" []], []⟩, ⟨"a", [.optional "id" []], []⟩]) by
        decide +kernel)
    obtain ⟨hok, -, hdescribes, -⟩ := hrecords _ (hdocument j _ hj).1
    obtain ⟨s, hs⟩ := hok.2 (by decide)
    exact ⟨j, _, hparse, hj, s, hs, hdescribes s hs⟩
  · obtain ⟨-, herror, -⟩ := hrecords [⟨"b", [.optional "id" []], []⟩, ⟨"a", [], []⟩] (by decide)
    exact (herror _).2 ⟨[⟨"b", [.optional "id" []], []⟩], ⟨"a", [], []⟩, [], rfl,
      by decide, .empty rfl⟩
  · obtain ⟨-, herror, -⟩ := hrecords [⟨"b", [.optional "id" []], []⟩,
      ⟨"a", [.optional "id" [], .optional "x" [], .optional "id" []], []⟩] (by decide)
    exact (herror _).2 ⟨[⟨"b", [.optional "id" []], []⟩], _, [], rfl, by decide,
      @Fault.repeated _ [.optional "id" [], .optional "x" []] [] (.optional "id" []) rfl (by decide)
        (by decide)⟩

end Schema

end SqlScribe
