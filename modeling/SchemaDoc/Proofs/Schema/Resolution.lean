import Mathlib.Data.List.Forall2
import SchemaDoc.Proofs.LastItem
import SchemaDoc.Proofs.Sql.Duplicates

/-!
# Which references resolve

A foreign key resolves if it tells a table and a column, and the last table of that name has a
column of that name (`Column.ResolvesIn`). What is found for a column says which of these fails
first (`Database.Finds`), and there is one finding for each foreign key that does not resolve, in
the order of the document (`Database.forall₂_danglingReferences`).
-/
namespace SchemaDoc

theorem forall₂_filterMap {α β : Type} (f : α → Option β) (l : List α) :
    List.Forall₂ (fun a b => f a = some b) (l.filter fun a => (f a).isSome) (l.filterMap f) := by
  induction l with
  | nil => exact .nil
  | cons a l ih =>
    cases h : f a with
    | none => simpa [h] using ih
    | some b =>
      rw [List.filter_cons_of_pos (by rw [h, Option.isSome_some]), List.filterMap_cons_some h]
      exact .cons h ih

theorem Reference.target?_eq_some_iff {r : Reference} {table column : String} :
    r.target? = some (table, column) ↔ r.table? = some table ∧ r.column? = some column := by
  obtain ⟨t, c, n⟩ := r
  cases t <;> cases c <;> simp [target?]

namespace Column

theorem isForeignKey_iff {c : Column} : c.isForeignKey ↔ ∃ r, c.key = .foreign r := by
  rw [isForeignKey]
  cases c.key <;> simp [Key.reference?]

/-- The reference of a foreign key leads to a column of the last table of its name. -/
def ResolvesIn (db : Database) (c : Column) : Prop :=
  ∃ r table column target, c.key = .foreign r ∧ r.table? = some table ∧ r.column? = some column ∧
    IsLastWith (·.name = table) db.tables target ∧ ∃ found ∈ target.columns, found.name = column

end Column

namespace Database

theorem findTable?_eq_some_iff_isLastWith {db : Database} {name : String} {t : Table} :
    db.findTable? name = some t ↔ IsLastWith (·.name = name) db.tables t := by
  simp only [findTable?, find?_reverse_eq_some_iff, beq_iff_eq]

/-- What is to be found for a foreign key in a column of a table. A column of an earlier table does
not count. -/
inductive Finds (db : Database) (table : String) (c : Column) : Finding → Prop
  | incomplete {r : Reference} (hkey : c.key = .foreign r)
      (h : r.table? = none ∨ r.column? = none) : Finds db table c (.incomplete table c.name)
  | unknownTable {r : Reference} {targetTable targetColumn : String} (hkey : c.key = .foreign r)
      (htable : r.table? = some targetTable) (hcolumn : r.column? = some targetColumn)
      (h : ∀ t ∈ db.tables, t.name ≠ targetTable) :
      Finds db table c (.unknownTable table c.name targetTable)
  | unknownColumn {r : Reference} {targetTable targetColumn : String} {target : Table}
      (hkey : c.key = .foreign r) (htable : r.table? = some targetTable)
      (hcolumn : r.column? = some targetColumn)
      (hlast : IsLastWith (·.name = targetTable) db.tables target)
      (h : ∀ d ∈ target.columns, d.name ≠ targetColumn) :
      Finds db table c (.unknownColumn table c.name targetTable targetColumn)

section

variable {db : Database} {table : String} {c : Column}

theorem finding?_eq_some_iff {f : Finding} : db.finding? table c = some f ↔ db.Finds table c f := by
  constructor
  · intro h
    rw [finding?] at h
    split at h
    next r hkey =>
      rw [findingFor?] at h
      split at h
      next htarget =>
        cases h
        exact .incomplete hkey (Reference.target?_eq_none_iff.mp htarget)
      next targetTable targetColumn htarget =>
        obtain ⟨htable, hcolumn⟩ := Reference.target?_eq_some_iff.mp htarget
        split at h
        next hnone =>
          cases h
          exact .unknownTable hkey htable hcolumn (findTable?_eq_none_iff.mp hnone)
        next target hlast =>
          split at h
          next hnone =>
            cases h
            exact .unknownColumn hkey htable hcolumn (findTable?_eq_some_iff_isLastWith.mp hlast)
              (Table.findColumn?_eq_none_iff.mp hnone)
          next => cases h
    next => cases h
  · intro h
    cases h with
    | incomplete hkey h => simp [finding?, findingFor?, hkey, Reference.target?_eq_none_iff.mpr h]
    | unknownTable hkey htable hcolumn h =>
      simp [finding?, findingFor?, hkey, Reference.target?_eq_some_iff.mpr ⟨htable, hcolumn⟩,
        findTable?_eq_none_iff.mpr h]
    | unknownColumn hkey htable hcolumn hlast h =>
      simp [finding?, findingFor?, hkey, Reference.target?_eq_some_iff.mpr ⟨htable, hcolumn⟩,
        findTable?_eq_some_iff_isLastWith.mpr hlast, Table.findColumn?_eq_none_iff.mpr h]

/-- A foreign key resolves exactly if nothing is found for it, in whatever table it stands. -/
theorem resolvesIn_iff (table : String) :
    c.ResolvesIn db ↔ c.isForeignKey ∧ db.finding? table c = none := by
  have hfound : ∀ (t : Table) (name : String), (t.findColumn? name).isSome ↔
      ∃ d ∈ t.columns, d.name = name := by
    intro t name
    rw [Option.isSome_iff_ne_none, ne_eq, Table.findColumn?_eq_none_iff]
    simp
  rw [Column.isForeignKey_iff]
  constructor
  · rintro ⟨r, targetTable, targetColumn, target, hkey, htable, hcolumn, hlast, hd⟩
    refine ⟨⟨r, hkey⟩, ?_⟩
    simp only [finding?, hkey]
    exact findingFor?_eq_none_iff.mpr ⟨targetTable, targetColumn, target,
      Reference.target?_eq_some_iff.mpr ⟨htable, hcolumn⟩,
      findTable?_eq_some_iff_isLastWith.mpr hlast, (hfound target targetColumn).mpr hd⟩
  · rintro ⟨⟨r, hkey⟩, h⟩
    simp only [finding?, hkey] at h
    obtain ⟨targetTable, targetColumn, target, htarget, hlast, hd⟩ := findingFor?_eq_none_iff.mp h
    obtain ⟨htable, hcolumn⟩ := Reference.target?_eq_some_iff.mp htarget
    exact ⟨r, targetTable, targetColumn, target, hkey, htable, hcolumn,
      findTable?_eq_some_iff_isLastWith.mp hlast, (hfound target targetColumn).mp hd⟩

instance : Decidable (c.ResolvesIn db) :=
  decidable_of_iff _ (resolvesIn_iff "").symm

end

/-- The foreign key columns that do not resolve, each with the name of its table. -/
def unresolvedKeys (db : Database) : List (String × Column) :=
  db.keyColumns.filter fun p => ¬ p.2.ResolvesIn db

theorem isForeignKey_of_mem_keyColumns {db : Database} {p : String × Column}
    (h : p ∈ db.keyColumns) : p.2.isForeignKey := by
  obtain ⟨t, -, h⟩ := List.mem_flatMap.mp h
  obtain ⟨c, hc, rfl⟩ := List.mem_map.mp h
  exact (List.mem_filter.mp hc).2

theorem danglingReferences_eq_filterMap (db : Database) :
    db.danglingReferences = db.keyColumns.filterMap fun p => db.finding? p.1 p.2 := by
  have htable : ∀ t : Table, (t.foreignKeyColumns.map fun c => (t.name, c)).filterMap
      (fun p => db.finding? p.1 p.2) = t.columns.filterMap (db.finding? t.name) := by
    intro t
    rw [List.filterMap_map, Table.foreignKeyColumns, List.filterMap_filter]
    congr 1
    funext c
    split_ifs with hkey
    · rfl
    · exact (finding?_eq_none_of_not_foreign (by simpa using hkey)).symm
  rw [danglingReferences, keyColumns, List.filterMap_flatMap]
  exact congrArg (List.flatMap · db.tables) (funext fun t => (htable t).symm)

theorem unresolvedKeys_eq_filter (db : Database) :
    db.unresolvedKeys = db.keyColumns.filter fun p => (db.finding? p.1 p.2).isSome := by
  refine List.filter_congr fun p hp => ?_
  rw [Bool.eq_iff_iff, decide_eq_true_iff, resolvesIn_iff p.1, Option.isSome_iff_ne_none]
  simp [isForeignKey_of_mem_keyColumns hp]

theorem forall₂_danglingReferences (db : Database) :
    List.Forall₂ (fun p f => ∀ g, db.Finds p.1 p.2 g ↔ g = f) db.unresolvedKeys
      db.danglingReferences := by
  rw [unresolvedKeys_eq_filter, danglingReferences_eq_filterMap]
  refine (forall₂_filterMap _ _).imp fun p f hf g => ?_
  rw [← finding?_eq_some_iff, hf, Option.some_inj, eq_comm]

theorem unresolvedKeys_eq_nil_iff {db : Database} :
    db.unresolvedKeys = [] ↔ ∀ p ∈ db.keyColumns, p.2.ResolvesIn db := by
  simp [unresolvedKeys, List.filter_eq_nil_iff]

end Database

end SchemaDoc
