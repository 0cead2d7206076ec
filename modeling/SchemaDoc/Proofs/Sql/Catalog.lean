import SchemaDoc.Proofs.Sql.Statements
import SchemaDoc.Schema.Finding

/-!
# Running the statements of a database

A server keeps a catalog of tables and foreign keys, which each statement changes or refuses to
change (`Catalog.execute`). The statements that are written for a database without dangling
references can be run one after another from nothing, and leave in the catalog what the database
says, whichever dialect they are written in.
-/
namespace SchemaDoc

structure TableEntry where
  name : String
  columns : List ColumnDefinition
  deriving DecidableEq, Repr

/-- A foreign key as a server knows it. Its name is not part of what it refers to. -/
structure KeyEntry where
  table : String
  column : String
  targetTable : String
  targetColumn : String
  deriving DecidableEq, Repr

def ForeignKey.entry (k : ForeignKey) : KeyEntry :=
  ⟨k.table, k.column, k.targetTable, k.targetColumn⟩

structure Catalog where
  tables : List TableEntry := []
  keys : List KeyEntry := []
  deriving DecidableEq, Repr

namespace Catalog

def hasTable (c : Catalog) (name : String) : Bool :=
  c.tables.any (·.name == name)

def hasColumn (c : Catalog) (table column : String) : Bool :=
  c.tables.any fun t => t.name == table && t.columns.any (·.name == column)

/-- Runs one statement. A table that exists is an error unless the statement allows for it, and so
is a column that repeats. A key inside a table is recorded as it stands; a key that is added later
needs both of its columns, and a dialect that has such statements. -/
def execute (d : Dialect) (c : Catalog) : Statement → Option Catalog
  | .createTable name ifNotExists columns keys =>
    if c.hasTable name then
      if ifNotExists then some c else none
    else if (columns.map (·.name)).Nodup then
      some ⟨c.tables ++ [⟨name, columns⟩], c.keys ++ keys.map (·.entry)⟩
    else none
  | .addForeignKey key =>
    if !d.inlinesForeignKeys && c.hasColumn key.table key.column &&
        c.hasColumn key.targetTable key.targetColumn then
      some { c with keys := c.keys ++ [key.entry] }
    else none

/-- Runs statements one after another, and stops at the first one that is refused. -/
def run (d : Dialect) (c : Catalog) (statements : List Statement) : Option Catalog :=
  statements.foldlM (execute d) c

theorem run_append (d : Dialect) (c : Catalog) (a b : List Statement) :
    c.run d (a ++ b) = (c.run d a).bind (·.run d b) :=
  List.foldlM_append

theorem hasTable_append (tables more : List TableEntry) (keys : List KeyEntry) (name : String) :
    hasTable ⟨tables ++ more, keys⟩ name =
      (hasTable ⟨tables, keys⟩ name || hasTable ⟨more, keys⟩ name) :=
  List.any_append

theorem run_addForeignKeys {d : Dialect} (hd : d.inlinesForeignKeys = false) (c : Catalog)
    (keys : List ForeignKey)
    (h : ∀ k ∈ keys, c.hasColumn k.table k.column ∧ c.hasColumn k.targetTable k.targetColumn) :
    c.run d (keys.map .addForeignKey) = some { c with keys := c.keys ++ keys.map (·.entry) } := by
  induction keys generalizing c with
  | nil => simp [run]
  | cons k keys ih =>
    obtain ⟨hk, hrest⟩ := List.forall_mem_cons.mp h
    have hstep : c.execute d (.addForeignKey k) = some { c with keys := c.keys ++ [k.entry] } := by
      simp [execute, hd, hk.1, hk.2]
    have hrun := ih { c with keys := c.keys ++ [k.entry] } hrest
    rw [run] at hrun ⊢
    rw [List.map_cons, List.foldlM_cons, hstep]
    simpa [List.append_assoc] using hrun

end Catalog

/-- What a server is to know of a table. -/
def Table.entry (t : Table) : Except UnsupportedType TableEntry := do
  let columns ← t.columns.mapM (·.definition)
  return ⟨t.name, columns⟩

namespace Table

theorem entry_eq_ok_iff {t : Table} {e : TableEntry} :
    t.entry = .ok e ↔ t.columns.mapM (·.definition) = .ok e.columns ∧ e.name = t.name := by
  rw [entry, bind_eq_ok_iff]
  constructor
  · rintro ⟨columns, hc, he⟩
    cases he
    exact ⟨hc, rfl⟩
  · rintro ⟨hc, hn⟩
    exact ⟨e.columns, hc, by rw [← hn]; rfl⟩

theorem columnNames_of_entry {t : Table} {e : TableEntry} (h : t.entry = .ok e) :
    e.columns.map (·.name) = t.columns.map (·.name) := by
  have hf := mapM_eq_ok_iff.mp (entry_eq_ok_iff.mp h).1
  generalize t.columns = columns at hf
  generalize e.columns = definitions at hf
  induction hf with
  | nil => rfl
  | cons hc _ ih =>
    rw [List.map_cons, List.map_cons, (Column.of_definition hc).1, ih]

theorem creation_eq_ok_iff_entry {d : Dialect} {ifNotExists : Bool} {t : Table} {s : Statement} :
    t.creation d ifNotExists = .ok s ↔ ∃ e, t.entry = .ok e ∧
      s = .createTable e.name ifNotExists e.columns
        (if d.inlinesForeignKeys then t.foreignKeys else []) := by
  rw [creation_eq_ok_iff]
  constructor
  · rintro ⟨columns, hc, rfl⟩
    exact ⟨⟨t.name, columns⟩, entry_eq_ok_iff.mpr ⟨hc, rfl⟩, rfl⟩
  · rintro ⟨e, he, rfl⟩
    rw [entry_eq_ok_iff] at he
    exact ⟨e.columns, he.1, by rw [he.2]⟩

end Table

namespace Catalog

theorem run_creations {d : Dialect} {ifNotExists : Bool} {tables : List Table}
    {entries : List TableEntry} {statements : List Statement}
    (hentries : tables.mapM Table.entry = .ok entries)
    (hstatements : tables.mapM (·.creation d ifNotExists) = .ok statements)
    (hnames : (tables.map (·.name)).Nodup) (hcolumns : ∀ t ∈ tables, (t.columns.map (·.name)).Nodup)
    (c : Catalog) (hnew : ∀ t ∈ tables, c.hasTable t.name = false) :
    c.run d statements = some
      ⟨c.tables ++ entries,
        c.keys ++ if d.inlinesForeignKeys then (tables.flatMap (·.foreignKeys)).map (·.entry)
          else []⟩ := by
  rw [mapM_eq_ok_iff] at hentries hstatements
  induction hentries generalizing c statements with
  | nil =>
    cases hstatements
    simp [run]
  | @cons t e tables entries he _ ih =>
    cases hstatements with
    | @cons _ s _ statements hs hstatements =>
      obtain ⟨e', he', rfl⟩ := Table.creation_eq_ok_iff_entry.mp hs
      cases he.symm.trans he'
      rw [List.map_cons, List.nodup_cons] at hnames
      obtain ⟨hcolumn, hcolumns⟩ := List.forall_mem_cons.mp hcolumns
      obtain ⟨hfresh, hnew⟩ := List.forall_mem_cons.mp hnew
      have hname := (Table.entry_eq_ok_iff.mp he).2
      let keys := if d.inlinesForeignKeys then t.foreignKeys else []
      have hstep : c.execute d (.createTable e.name ifNotExists e.columns keys) =
          some ⟨c.tables ++ [e], c.keys ++ keys.map (·.entry)⟩ := by
        simp only [execute, hname, hfresh, Table.columnNames_of_entry he, hcolumn, if_true]
        rw [← hname]
        rfl
      have hrest : ∀ u ∈ tables, hasTable ⟨c.tables ++ [e], c.keys ++ keys.map (·.entry)⟩ u.name =
          false := by
        intro u hu
        have hne : t.name ≠ u.name := fun h => hnames.1 (h ▸ List.mem_map_of_mem hu)
        rw [hasTable_append, Bool.or_eq_false_iff]
        exact ⟨hnew u hu, by simp [hasTable, hname, hne]⟩
      have hrun := ih hstatements hnames.2 hcolumns _ hrest
      rw [run] at hrun ⊢
      rw [List.foldlM_cons, hstep]
      simp only [bind, Option.bind, hrun]
      by_cases hd : d.inlinesForeignKeys <;> simp [keys, hd]

theorem hasColumn_of_entry {tables : List Table} {entries : List TableEntry}
    (h : tables.mapM Table.entry = .ok entries) (keys : List KeyEntry) {t : Table} (ht : t ∈ tables)
    {c : Column} (hc : c ∈ t.columns) : hasColumn ⟨entries, keys⟩ t.name c.name := by
  obtain ⟨e, he, hte⟩ := exists_mem_of_mapM h ht
  have hn : c.name ∈ e.columns.map (·.name) := by
    rw [Table.columnNames_of_entry hte]
    exact List.mem_map_of_mem hc
  obtain ⟨f, hf, hfc⟩ := List.mem_map.mp hn
  simp only [hasColumn, List.any_eq_true, Bool.and_eq_true, beq_iff_eq]
  exact ⟨e, he, (Table.entry_eq_ok_iff.mp hte).2, f, hf, hfc⟩

end Catalog

/-- What a server is to know of the foreign key in a column. -/
def KeyEntry.IsOf (k : KeyEntry) (table : String) (c : Column) : Prop :=
  k.table = table ∧ k.column = c.name ∧
    ∃ r, c.key = .foreign r ∧ r.target? = some (k.targetTable, k.targetColumn)

theorem ForeignKey.entry_isOf {table : String} {c : Column} {k : ForeignKey}
    (h : c.foreignKey? table = some k) : k.entry.IsOf table c := by
  obtain ⟨r, hr, -, ht, hc, htarget⟩ := Column.foreignKey?_eq_some_iff.mp h
  exact ⟨ht, hc, r, hr, htarget⟩

namespace Database

/-- The foreign key columns, each with the name of its table. -/
def keyColumns (db : Database) : List (String × Column) :=
  db.tables.flatMap fun t => t.foreignKeyColumns.map fun c => (t.name, c)

/-- A catalog that holds the tables with their columns, each in order, and one key for each foreign
key column, and nothing else. -/
structure IsRecordedBy (db : Database) (c : Catalog) : Prop where
  tables : db.tables.mapM Table.entry = .ok c.tables
  keys : List.Forall₂ (fun p k => k.IsOf p.1 p.2) db.keyColumns c.keys

/-- The reference of a column leads to a column of a table. -/
def Resolves (db : Database) (r : Reference) : Prop :=
  ∃ t ∈ db.tables, ∃ c ∈ t.columns, r.target? = some (t.name, c.name)

theorem resolves_of_findingFor? {db : Database} {table column : String} {r : Reference}
    (h : db.findingFor? table column r = none) : db.Resolves r := by
  unfold findingFor? at h
  split at h
  next => cases h
  next targetTable targetColumn htarget =>
    split at h
    next => cases h
    next t ht =>
      split at h
      next => cases h
      next c hc =>
        have htn : t.name = targetTable := by simpa using List.find?_some ht
        have hcn : c.name = targetColumn := by simpa using List.find?_some hc
        refine ⟨t, ?_, c, ?_, by rw [htn, hcn, htarget]⟩
        · simpa using List.mem_of_find?_eq_some ht
        · simpa using List.mem_of_find?_eq_some hc

theorem resolves_of_danglingReferences {db : Database} (h : db.danglingReferences = []) {t : Table}
    (ht : t ∈ db.tables) {c : Column} (hc : c ∈ t.columns) {r : Reference}
    (hr : c.key = .foreign r) : db.Resolves r := by
  rw [danglingReferences, List.flatMap_eq_nil_iff] at h
  have hnone := List.filterMap_eq_nil_iff.mp (h t ht) c hc
  rw [finding?, hr] at hnone
  exact resolves_of_findingFor? hnone

theorem exists_foreignKey_of_danglingReferences {db : Database} (h : db.danglingReferences = [])
    {t : Table} (ht : t ∈ db.tables) {c : Column} (hc : c ∈ t.columns) (hkey : c.isForeignKey) :
    ∃ k, c.foreignKey? t.name = some k := by
  cases hk : c.key with
  | none => simp [Column.isForeignKey, Key.reference?, hk] at hkey
  | primary => simp [Column.isForeignKey, Key.reference?, hk] at hkey
  | foreign r =>
    obtain ⟨target, -, column, -, htarget⟩ := resolves_of_danglingReferences h ht hc hk
    exact ⟨⟨r.constraint?, t.name, c.name, target.name, column.name⟩,
      Column.foreignKey?_eq_some_iff.mpr ⟨r, hk, rfl, rfl, rfl, htarget⟩⟩

theorem forall₂_foreignKeys (table : String) (columns : List Column)
    (h : ∀ c ∈ columns, c.isForeignKey → ∃ k, c.foreignKey? table = some k) :
    List.Forall₂ (fun p (k : KeyEntry) => k.IsOf p.1 p.2)
      ((columns.filter (·.isForeignKey)).map fun c => (table, c))
      ((columns.filterMap (·.foreignKey? table)).map (·.entry)) := by
  induction columns with
  | nil => exact .nil
  | cons c columns ih =>
    obtain ⟨hc, hrest⟩ := List.forall_mem_cons.mp h
    cases hkey : c.isForeignKey with
    | true =>
      obtain ⟨k, hk⟩ := hc hkey
      rw [List.filter_cons_of_pos hkey, List.filterMap_cons_some hk]
      exact .cons (ForeignKey.entry_isOf hk) (ih hrest)
    | false =>
      have hnone : c.foreignKey? table = none := by
        rw [Option.eq_none_iff_forall_ne_some]
        intro k hk
        obtain ⟨r, hr, -⟩ := Column.foreignKey?_eq_some_iff.mp hk
        simp [Column.isForeignKey, Key.reference?, hr] at hkey
      rw [List.filter_cons_of_neg (by simp [hkey]), List.filterMap_cons_none hnone]
      exact ih hrest

theorem keys_of_danglingReferences {db : Database} (h : db.danglingReferences = []) :
    List.Forall₂ (fun p (k : KeyEntry) => k.IsOf p.1 p.2) db.keyColumns
      ((db.tables.flatMap (·.foreignKeys)).map (·.entry)) := by
  have htables : ∀ t ∈ db.tables, ∀ c ∈ t.columns, c.isForeignKey →
      ∃ k, c.foreignKey? t.name = some k :=
    fun t ht c hc => exists_foreignKey_of_danglingReferences h ht hc
  rw [keyColumns]
  generalize db.tables = tables at htables
  induction tables with
  | nil => exact .nil
  | cons t tables ih =>
    obtain ⟨ht, hrest⟩ := List.forall_mem_cons.mp htables
    rw [List.flatMap_cons, List.flatMap_cons, List.map_append, Table.foreignKeys_eq_filterMap]
    exact List.rel_append (forall₂_foreignKeys t.name t.columns ht) (ih hrest)

theorem hasColumn_of_mem_foreignKeys {db : Database} (h : db.danglingReferences = []) {c : Catalog}
    (hc : db.tables.mapM Table.entry = .ok c.tables) {k : ForeignKey}
    (hk : k ∈ db.tables.flatMap (·.foreignKeys)) :
    c.hasColumn k.table k.column ∧ c.hasColumn k.targetTable k.targetColumn := by
  obtain ⟨t, ht, hk⟩ := List.mem_flatMap.mp hk
  rw [Table.foreignKeys_eq_filterMap] at hk
  obtain ⟨column, hcolumn, hk⟩ := List.mem_filterMap.mp hk
  obtain ⟨r, hr, -, htable, hname, htarget⟩ := Column.foreignKey?_eq_some_iff.mp hk
  obtain ⟨target, htt, targetColumn, htc, hresolves⟩ :=
    resolves_of_danglingReferences h ht hcolumn hr
  have hsame := htarget.symm.trans hresolves
  rw [Option.some.injEq, Prod.mk.injEq] at hsame
  rw [htable, hname, hsame.1, hsame.2]
  exact ⟨Catalog.hasColumn_of_entry hc c.keys ht hcolumn,
    Catalog.hasColumn_of_entry hc c.keys htt htc⟩

theorem exists_entries {d : Dialect} {ifNotExists : Bool} {tables : List Table}
    {creations : List Statement} (h : tables.mapM (·.creation d ifNotExists) = .ok creations) :
    ∃ entries, tables.mapM Table.entry = .ok entries := by
  simp only [mapM_eq_ok_iff] at h ⊢
  induction h with
  | nil => exact ⟨[], .nil⟩
  | cons hs _ ih =>
    obtain ⟨e, he, -⟩ := Table.creation_eq_ok_iff_entry.mp hs
    obtain ⟨entries, hentries⟩ := ih
    exact ⟨e :: entries, .cons he hentries⟩

theorem run_additions {db : Database} (hkeys : db.danglingReferences = []) {c : Catalog}
    (hc : db.tables.mapM Table.entry = .ok c.tables) (d : Dialect) :
    c.run d (db.tables.flatMap (·.additions d)) = some { c with
      keys := c.keys ++
        if d.inlinesForeignKeys then []
        else (db.tables.flatMap (·.foreignKeys)).map (·.entry) } := by
  rw [flatMap_additions]
  cases hd : d.inlinesForeignKeys with
  | true => simp [Catalog.run]
  | false =>
    exact Catalog.run_addForeignKeys hd c _ fun k hk => hasColumn_of_mem_foreignKeys hkeys hc hk

/-- All statements run from nothing, the keys declared inside tables or added afterwards. -/
theorem run_statements {db : Database} (hnames : db.tableNames.Nodup)
    (hcolumns : ∀ t ∈ db.tables, (t.columns.map (·.name)).Nodup)
    (hkeys : db.danglingReferences = []) {entries : List TableEntry}
    (hentries : db.tables.mapM Table.entry = .ok entries) {d : Dialect} {ifNotExists : Bool}
    {statements : List Statement} (hstatements : db.statements d ifNotExists = .ok statements) :
    Catalog.run d {} statements =
      some ⟨entries, (db.tables.flatMap (·.foreignKeys)).map (·.entry)⟩ := by
  obtain ⟨creations, hcreations, rfl⟩ := statements_eq_ok_iff.mp hstatements
  rw [Catalog.run_append,
    Catalog.run_creations hentries hcreations hnames hcolumns {} fun _ _ => rfl, Option.bind_some,
    run_additions hkeys (by simpa using hentries)]
  cases d.inlinesForeignKeys <;> simp

end Database

end SchemaDoc
