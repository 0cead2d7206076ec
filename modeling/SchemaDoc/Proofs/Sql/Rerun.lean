import SchemaDoc.Proofs.Sql.Duplicates
import SchemaDoc.Proofs.Sql.Execution

/-!
# Running a script twice

A server that keeps the names of constraints refuses a second constraint of one name in a table. On
the catalog that a script has led to, `CREATE TABLE IF NOT EXISTS` does nothing, but each foreign
key that is added after the tables is added once more (`Database.rerun_ddl`): a named one is
refused, and one without a name is there twice. So a script can be run again exactly if it adds no
keys.
-/
namespace SchemaDoc

/-- The name that a statement gives to a constraint, with its table. Keys that are declared inside a
table are written without their names. -/
def Statement.naming? : Statement → Option (String × String)
  | .createTable _ _ _ _ => none
  | .addForeignKey key => key.constraint?.map (key.table, ·)

/-- A catalog that knows the names of constraints. -/
structure NamedCatalog where
  catalog : Catalog := {}
  names : List (String × String) := []
  deriving DecidableEq, Repr

namespace NamedCatalog

/-- Runs one statement. A constraint of a name that its table has for another one is an error. -/
def execute (d : Dialect) (c : NamedCatalog) (s : Statement) : Option NamedCatalog :=
  if s.naming?.any (· ∈ c.names) then none
  else (c.catalog.execute d s).map fun after => ⟨after, c.names ++ s.naming?.toList⟩

def run (d : Dialect) (c : NamedCatalog) (statements : List Statement) : Option NamedCatalog :=
  statements.foldlM (execute d) c

variable {d : Dialect} {c after : NamedCatalog}

theorem nodup_append_naming_iff {s : Statement} (hc : c.names.Nodup) :
    (c.names ++ s.naming?.toList).Nodup ↔ s.naming?.any (· ∈ c.names) = false := by
  cases s.naming? with
  | none => simpa using hc
  | some naming =>
    simp only [Option.toList_some, Option.any_some, decide_eq_false_iff_not]
    rw [List.nodup_append_comm, List.singleton_append, List.nodup_cons, and_iff_left hc]

theorem execute_eq_some_iff {s : Statement} (hc : c.names.Nodup) :
    c.execute d s = some after ↔ c.catalog.execute d s = some after.catalog ∧
      after.names = c.names ++ s.naming?.toList ∧ after.names.Nodup := by
  obtain ⟨catalog, names⟩ := after
  rw [execute]
  split_ifs with htaken
  · simp only [false_iff, not_and]
    rintro - rfl hnames
    rw [nodup_append_naming_iff hc, htaken] at hnames
    cases hnames
  · rw [Bool.not_eq_true, ← nodup_append_naming_iff hc] at htaken
    simp only [Option.map_eq_some_iff, mk.injEq]
    constructor
    · rintro ⟨_, hstep, rfl, rfl⟩
      exact ⟨hstep, rfl, htaken⟩
    · rintro ⟨hstep, rfl, -⟩
      exact ⟨catalog, hstep, rfl, rfl⟩

theorem run_cons (d : Dialect) (c : NamedCatalog) (s : Statement) (statements : List Statement) :
    c.run d (s :: statements) = (c.execute d s).bind (·.run d statements) :=
  List.foldlM_cons

theorem run_eq_some_iff {statements : List Statement} (hc : c.names.Nodup) :
    c.run d statements = some after ↔ c.catalog.run d statements = some after.catalog ∧
      after.names = c.names ++ statements.filterMap (·.naming?) ∧ after.names.Nodup := by
  induction statements generalizing c with
  | nil =>
    obtain ⟨catalog, names⟩ := c
    obtain ⟨catalog', names'⟩ := after
    simp only [run, Catalog.run, List.foldlM_nil, List.filterMap_nil, List.append_nil,
      Option.pure_def, Option.some.injEq, mk.injEq]
    constructor
    · rintro ⟨rfl, rfl⟩
      exact ⟨rfl, rfl, hc⟩
    · rintro ⟨rfl, rfl, -⟩
      exact ⟨rfl, rfl⟩
  | cons s statements ih =>
    have hsplit : (s :: statements).filterMap (·.naming?) =
        s.naming?.toList ++ statements.filterMap (·.naming?) := by
      rw [List.filterMap_eq_flatMap_toList, List.flatMap_cons, ← List.filterMap_eq_flatMap_toList]
    rw [run_cons, Catalog.run_cons, Option.bind_eq_some_iff, Option.bind_eq_some_iff, hsplit,
      ← List.append_assoc]
    constructor
    · rintro ⟨between, hstep, hrun⟩
      obtain ⟨hstep, hnames, hnodup⟩ := (execute_eq_some_iff hc).mp hstep
      obtain ⟨hrun, hrest, hlast⟩ := (ih hnodup).mp hrun
      rw [hnames] at hrest
      exact ⟨⟨between.catalog, hstep, hrun⟩, hrest, hlast⟩
    · rintro ⟨⟨between, hstep, hrun⟩, hnames, hlast⟩
      have hnodup : (c.names ++ s.naming?.toList).Nodup := by
        rw [hnames] at hlast
        exact hlast.of_append_left
      exact ⟨⟨between, c.names ++ s.naming?.toList⟩,
        (execute_eq_some_iff hc).mpr ⟨hstep, rfl, hnodup⟩, (ih hnodup).mpr ⟨hrun, hnames, hlast⟩⟩

theorem exists_run_iff {statements : List Statement} (hc : c.names.Nodup) {catalog : Catalog}
    (hrun : c.catalog.run d statements = some catalog) :
    (∃ after, c.run d statements = some after) ↔
      (c.names ++ statements.filterMap (·.naming?)).Nodup := by
  simp only [run_eq_some_iff hc, hrun]
  constructor
  · rintro ⟨after, -, hnames, hnodup⟩
    rwa [hnames] at hnodup
  · intro hnodup
    exact ⟨⟨catalog, _⟩, rfl, rfl, hnodup⟩

/-- Statements that give the names of a catalog once more are refused, unless there are none. -/
theorem rerun_eq {statements : List Statement} (hc : c.names.Nodup)
    (hnames : c.names = statements.filterMap (·.naming?)) {catalog : Catalog}
    (hrun : c.catalog.run d statements = some catalog) :
    c.run d statements = if c.names = [] then some { c with catalog } else none := by
  split_ifs with hnone
  · exact (run_eq_some_iff hc).mpr ⟨hrun, by rw [← hnames, hnone, List.append_nil], hc⟩
  · rw [Option.eq_none_iff_forall_ne_some]
    intro after hafter
    obtain ⟨-, hafter, hnodup⟩ := (run_eq_some_iff hc).mp hafter
    rw [hafter, ← hnames, List.nodup_append'] at hnodup
    obtain ⟨naming, hmem⟩ := List.exists_mem_of_ne_nil _ hnone
    exact hnodup.2.2 hmem hmem

end NamedCatalog

def NamedCatalog.runTexts (d : Dialect) (c : NamedCatalog) (texts : List String) :
    Option NamedCatalog :=
  d.runTexts (execute d) c texts

theorem NamedCatalog.runTexts_eq_run {d : Dialect} {texts : List String} {read : List Statement}
    (h : texts.mapM d.statement? = some read) (c : NamedCatalog) :
    c.runTexts d texts = c.run d read := by
  rw [runTexts, Dialect.runTexts_eq, h, Option.bind_some, run]

theorem Dialect.quote_inj {d : Dialect} {s t : String} : d.quote s = d.quote t ↔ s = t := by
  rw [(Dialect.Spells.quote s).eq_iff (Dialect.Spells.quote t), List.cons.injEq,
    and_iff_left rfl, Symbol.name_inj]

theorem ForeignKey.markedName_inj {d : Dialect} {s t : String} :
    markedName d s = markedName d t ↔ s = t := by
  rw [markedName, markedName, String.append_left_inj, String.append_right_inj]

/-- The name of a constraint as it is written, and as it is read, each with its table. -/
def IsQuotedAs (d : Dialect) (written read : String × String) : Prop :=
  written.1 = read.1 ∧ ForeignKey.markedName d written.2 = d.quote read.2

theorem IsQuotedAs.biUnique (d : Dialect) : Relator.BiUnique (IsQuotedAs d) := by
  constructor
  · rintro a b c ⟨hac, hname⟩ ⟨hbc, hname'⟩
    rw [← hname', ForeignKey.markedName_inj] at hname
    exact Prod.ext (hac.trans hbc.symm) hname
  · rintro a b c ⟨hab, hname⟩ ⟨hac, hname'⟩
    rw [hname, Dialect.quote_inj] at hname'
    exact Prod.ext (hab.symm.trans hac) hname'

namespace Statement

variable {d : Dialect}

theorem forall₂_naming?_toList {s r : Statement} (h : s.IsReadAs d r) :
    List.Forall₂ (IsQuotedAs d) s.naming?.toList r.naming?.toList := by
  cases h with
  | creation name ifNotExists columns keys => exact .nil
  | @addition k s? hmarked =>
    cases hname : k.constraint? with
    | none =>
      rw [hname, Option.map_none, eq_comm, Option.map_eq_none_iff] at hmarked
      simp [naming?, hname, hmarked]
    | some name =>
      rw [hname, Option.map_some, eq_comm, Option.map_eq_some_iff] at hmarked
      obtain ⟨s, rfl, hs⟩ := hmarked
      simp [naming?, hname, IsQuotedAs, hs]

theorem forall₂_naming?_of_isReadAs {statements read : List Statement}
    (h : List.Forall₂ (IsReadAs d) statements read) :
    List.Forall₂ (IsQuotedAs d) (statements.filterMap (·.naming?))
      (read.filterMap (·.naming?)) := by
  rw [List.filterMap_eq_flatMap_toList, List.filterMap_eq_flatMap_toList]
  exact List.rel_flatMap h fun _ _ => forall₂_naming?_toList

end Statement

namespace Catalog

variable {tables : List Table} {statements : List Statement}

theorem hasTable_of_entry {entries : List TableEntry} (h : tables.mapM Table.entry = .ok entries)
    (keys : List KeyEntry) {t : Table} (ht : t ∈ tables) : hasTable ⟨entries, keys⟩ t.name := by
  obtain ⟨e, he, hte⟩ := exists_mem_of_mapM h ht
  rw [hasTable, List.any_eq_true]
  exact ⟨e, he, by simp [(Table.entry_eq_ok_iff.mp hte).2]⟩

theorem run_creations_of_hasTable {d : Dialect}
    (h : tables.mapM (·.creation d true) = .ok statements) {c : Catalog}
    (hall : ∀ t ∈ tables, c.hasTable t.name) : c.run d statements = some c := by
  rw [mapM_eq_ok_iff] at h
  induction h with
  | nil => rfl
  | @cons t s tables statements hs _ ih =>
    obtain ⟨ht, hrest⟩ := List.forall_mem_cons.mp hall
    obtain ⟨columns, -, rfl⟩ := Table.creation_eq_ok_iff.mp hs
    rw [run_cons, execute, if_pos ht, if_pos rfl, Option.bind_some, ih hrest]

end Catalog

/-- The name that a column tells for the constraint of its reference. -/
def Column.constraintName? (c : Column) : Option String :=
  c.key.reference?.bind (·.constraint?)

theorem Column.naming?_addForeignKey {table : String} {c : Column}
    (h : c.isForeignKey → ∃ k, c.foreignKey? table = some k) :
    ((c.foreignKey? table).bind fun k => (Statement.addForeignKey k).naming?) =
      c.constraintName?.map (table, ·) := by
  cases hk : c.key with
  | none => simp [foreignKey?, keyOutcome?, constraintName?, Key.reference?, hk]
  | primary => simp [foreignKey?, keyOutcome?, constraintName?, Key.reference?, hk]
  | foreign r =>
    obtain ⟨k, hkey⟩ := h (by simp [isForeignKey, Key.reference?, hk])
    obtain ⟨r', hr', hconstraint, htable, -⟩ := foreignKey?_eq_some_iff.mp hkey
    cases hk.symm.trans hr'
    simp [hkey, Statement.naming?, constraintName?, Key.reference?, hk, hconstraint, htable]

namespace Database

variable {db : Database} {d : Dialect} {ifNotExists : Bool} {statements read : List Statement}
  {entries : List TableEntry}

/-- The names of constraints that the columns tell, each with its table. -/
def constraintNames (db : Database) : List (String × String) :=
  db.tables.flatMap fun t => t.columns.filterMap fun c => c.constraintName?.map (t.name, ·)

theorem naming?_creations {tables : List Table} {creations : List Statement}
    (h : tables.mapM (·.creation d ifNotExists) = .ok creations) :
    creations.filterMap (·.naming?) = [] := by
  rw [List.filterMap_eq_nil_iff]
  refine forall_mem_of_forall₂ (mapM_eq_ok_iff.mp h) fun t s hs => ?_
  obtain ⟨columns, -, rfl⟩ := Table.creation_eq_ok_iff.mp hs
  rfl

theorem naming?_statements (hkeys : db.danglingReferences = [])
    (h : db.statements d ifNotExists = .ok statements) :
    statements.filterMap (·.naming?) = if d.inlinesForeignKeys then [] else db.constraintNames := by
  obtain ⟨creations, hcreations, rfl⟩ := statements_eq_ok_iff.mp h
  rw [List.filterMap_append, naming?_creations hcreations, List.nil_append, flatMap_additions]
  cases d.inlinesForeignKeys with
  | true => rfl
  | false =>
    rw [if_neg Bool.false_ne_true, if_neg Bool.false_ne_true, List.filterMap_map,
      List.filterMap_flatMap, constraintNames]
    refine List.flatMap_congr fun t ht => ?_
    rw [Table.foreignKeys_eq_filterMap, List.filterMap_filterMap]
    exact List.filterMap_congr fun c hc =>
      Column.naming?_addForeignKey (exists_foreignKey_of_danglingReferences hkeys ht hc)

theorem run_statements_of_hasTables (hkeys : db.danglingReferences = []) {c : Catalog}
    (hc : db.tables.mapM Table.entry = .ok c.tables)
    (h : db.statements d true = .ok statements) :
    c.run d statements = some { c with
      keys := c.keys ++
        if d.inlinesForeignKeys then []
        else (db.tables.flatMap (·.foreignKeys)).map (·.entry) } := by
  obtain ⟨creations, hcreations, rfl⟩ := statements_eq_ok_iff.mp h
  rw [Catalog.run_append, Catalog.run_creations_of_hasTable hcreations fun t ht =>
    Catalog.hasTable_of_entry hc c.keys ht, Option.bind_some, run_additions hkeys hc]

/-- On the catalog of a database its texts add its keys, unless these are inside the tables. -/
theorem rerun_read (hkeys : db.danglingReferences = [])
    (hentries : db.tables.mapM Table.entry = .ok entries)
    (hs : db.statements d true = .ok statements)
    (hread : List.Forall₂ (Statement.IsReadAs d) statements read) :
    Catalog.run d (.shown d ⟨entries, db.toldKeys⟩) read = some
      (.shown d ⟨entries, db.toldKeys ++ if d.inlinesForeignKeys then [] else db.toldKeys⟩) := by
  rw [Catalog.run_of_isReadAs hread (ownsKeys_statements hs),
    run_statements_of_hasTables hkeys hentries hs, map_entry_foreignKeys]
  rfl

theorem toldKeys_eq_nil_iff (hkeys : db.danglingReferences = []) :
    db.toldKeys = [] ↔ db.keyColumns = [] := by
  have hlength := (keys_of_danglingReferences hkeys).length_eq
  rw [map_entry_foreignKeys] at hlength
  rw [← List.length_eq_zero_iff, ← hlength, List.length_eq_zero_iff]

theorem constraintNames_eq_nil (h : db.keyColumns = []) : db.constraintNames = [] := by
  rw [keyColumns, List.flatMap_eq_nil_iff] at h
  rw [constraintNames, List.flatMap_eq_nil_iff]
  intro t ht
  rw [List.filterMap_eq_nil_iff]
  intro c hc
  have hplain : c.isForeignKey = false := by
    have hnone := List.map_eq_nil_iff.mp (h t ht)
    rw [Table.foreignKeyColumns, List.filter_eq_nil_iff] at hnone
    exact Bool.eq_false_iff.mpr (hnone c hc)
  rw [Column.isForeignKey, Option.isSome_eq_false_iff, Option.isNone_iff_eq_none] at hplain
  rw [Column.constraintName?, hplain]
  rfl

theorem forall₂_naming?_read (hkeys : db.danglingReferences = [])
    (hs : db.statements d ifNotExists = .ok statements)
    (hread : List.Forall₂ (Statement.IsReadAs d) statements read) :
    List.Forall₂ (IsQuotedAs d) (if d.inlinesForeignKeys then [] else db.constraintNames)
      (read.filterMap (·.naming?)) := by
  rw [← naming?_statements hkeys hs]
  exact Statement.forall₂_naming?_of_isReadAs hread

/-- From nothing a run is refused only for a name that a table has for two constraints. -/
theorem exists_run_read_iff (hkeys : db.danglingReferences = [])
    (hs : db.statements d ifNotExists = .ok statements)
    (hread : List.Forall₂ (Statement.IsReadAs d) statements read) {catalog : Catalog}
    (hrun : Catalog.run d {} read = some catalog) :
    (∃ c, NamedCatalog.run d {} read = some c) ↔
      d.inlinesForeignKeys ∨ db.constraintNames.Nodup := by
  have hnodup : (read.filterMap (·.naming?)).Nodup ↔
      (if d.inlinesForeignKeys then [] else db.constraintNames).Nodup :=
    (List.rel_nodup (IsQuotedAs.biUnique d) (forall₂_naming?_read hkeys hs hread)).symm
  rw [NamedCatalog.exists_run_iff List.nodup_nil hrun, List.nil_append, hnodup]
  cases d.inlinesForeignKeys <;> simp

/-- What a first run has left is the catalog of the database, and a second run is refused there if
it adds a key with a name, and otherwise adds all keys that are not inside the tables. -/
theorem rerun_eq_of_run (hkeys : db.danglingReferences = [])
    (hentries : db.tables.mapM Table.entry = .ok entries)
    (hs : db.statements d true = .ok statements)
    (hread : List.Forall₂ (Statement.IsReadAs d) statements read)
    (hfirst : Catalog.run d {} read = some (.shown d ⟨entries, db.toldKeys⟩)) {c : NamedCatalog}
    (hc : NamedCatalog.run d {} read = some c) :
    c.catalog = .shown d ⟨entries, db.toldKeys⟩ ∧ c.run d read =
      if d.inlinesForeignKeys then some c
      else if db.constraintNames = [] then
        some { c with catalog.keys := c.catalog.keys ++ c.catalog.keys }
      else none := by
  obtain ⟨hcatalog, hnames, hnodup⟩ := (NamedCatalog.run_eq_some_iff List.nodup_nil).mp hc
  rw [hfirst, Option.some.injEq] at hcatalog
  rw [List.nil_append] at hnames
  refine ⟨hcatalog.symm, ?_⟩
  have hagain := rerun_read hkeys hentries hs hread
  rw [hcatalog] at hagain
  rw [NamedCatalog.rerun_eq hnodup hnames hagain]
  have hquoted := forall₂_naming?_read hkeys hs hread
  rw [← hnames] at hquoted
  cases hd : d.inlinesForeignKeys with
  | true =>
    rw [hd, if_pos rfl, List.forall₂_nil_left_iff] at hquoted
    rw [if_pos hquoted, if_pos rfl, if_pos rfl, List.append_nil, hcatalog]
  | false =>
    have hnone : c.names = [] ↔ db.constraintNames = [] := by
      rw [hd, if_neg Bool.false_ne_true] at hquoted
      rw [← List.length_eq_zero_iff, ← hquoted.length_eq, List.length_eq_zero_iff]
    rw [if_neg Bool.false_ne_true, if_neg Bool.false_ne_true, ← hcatalog]
    simp only [hnone]
    rfl

/-- A script that creates tables unless they exist, for a database whose names do not repeat, whose
references all resolve and whose names of constraints are written as quotations, can be run from
nothing if in each table the names of constraints are distinct, or no keys are added. A second run
leaves the catalog as it is exactly if no keys are added: otherwise it is refused if a constraint
has a name, and has every key twice if none has. -/
theorem rerun_ddl (db : Database) (hnames : db.tableNames.Nodup)
    (hcolumns : ∀ t ∈ db.tables, (t.columns.map (·.name)).Nodup)
    (hkeys : db.danglingReferences = []) {d : Dialect} (hquoted : db.HasQuotedNames d)
    {texts : List String} (h : db.ddl d true = .ok texts) :
    ∃ catalog, db.IsRecordedBy catalog ∧
      ((∃ c, NamedCatalog.runTexts d {} texts = some c) ↔
        d.inlinesForeignKeys ∨ db.constraintNames.Nodup) ∧
      ∀ c, NamedCatalog.runTexts d {} texts = some c →
        c.catalog = catalog.shown d ∧
        (c.runTexts d texts = some c ↔ d.inlinesForeignKeys ∨ db.keyColumns = []) ∧
        (c.runTexts d texts = none ↔ ¬ d.inlinesForeignKeys ∧ db.constraintNames ≠ []) ∧
        ∀ after, c.runTexts d texts = some after → after ≠ c →
          after = { c with catalog.keys := c.catalog.keys ++ c.catalog.keys } := by
  obtain ⟨statements, hs, htexts⟩ := ddl_eq_ok_iff.mp h
  obtain ⟨creations, hcreations, -⟩ := statements_eq_ok_iff.mp hs
  obtain ⟨entries, hentries⟩ := exists_entries hcreations
  obtain ⟨read, hmap⟩ := (Statement.exists_read_iff htexts).mpr
    ((hasQuotedName_statements_iff hs).mpr hquoted)
  have hread := (Statement.mapM_statement?_eq_some_iff htexts).mp hmap
  have hfirst := run_read hnames hcolumns hkeys hentries hs hread
  simp only [NamedCatalog.runTexts_eq_run hmap]
  refine ⟨_, isRecordedBy_toldKeys hkeys hentries, exists_run_read_iff hkeys hs hread hfirst,
    fun c hc => ?_⟩
  obtain ⟨hcatalog, hagain⟩ := rerun_eq_of_run hkeys hentries hs hread hfirst hc
  have hnone : c.catalog.keys = [] ↔ db.keyColumns = [] := by
    rw [hcatalog, ← toldKeys_eq_nil_iff hkeys]
    rfl
  refine ⟨hcatalog, ?_⟩
  rw [hagain]
  cases d.inlinesForeignKeys with
  | true => simp
  | false =>
    by_cases hunnamed : db.constraintNames = []
    · refine ⟨?_, by simp [hunnamed], ?_⟩
      · rw [if_neg Bool.false_ne_true, if_pos hunnamed, Option.some.injEq, ← hnone]
        obtain ⟨⟨tables, keys⟩, names⟩ := c
        simp
      · intro after hafter _
        rw [if_neg Bool.false_ne_true, if_pos hunnamed, Option.some.injEq] at hafter
        exact hafter.symm
    · have hsome : db.keyColumns ≠ [] := mt constraintNames_eq_nil hunnamed
      simp [hunnamed, hsome]

/-- In MySQL the script for `henAndEgg` can be run once, and is refused when it is run again. -/
theorem rerun_ddl_henAndEgg :
    henAndEgg.tableNames.Nodup ∧ (∀ t ∈ henAndEgg.tables, (t.columns.map (·.name)).Nodup) ∧
      henAndEgg.danglingReferences = [] ∧ henAndEgg.HasQuotedNames .mysql ∧
      ∃ texts c, henAndEgg.ddl .mysql true = .ok texts ∧
        NamedCatalog.runTexts .mysql {} texts = some c ∧ c.runTexts .mysql texts = none := by
  have hnames : henAndEgg.tableNames.Nodup := by decide
  have hcolumns : ∀ t ∈ henAndEgg.tables, (t.columns.map (·.name)).Nodup := by decide
  have hkeys : henAndEgg.danglingReferences = [] := by decide
  have hquoted : henAndEgg.HasQuotedNames .mysql := hasQuotedNames_of_not_mem (by decide)
  obtain ⟨texts, htexts⟩ : ∃ texts, henAndEgg.ddl .mysql true = .ok texts := ⟨_, rfl⟩
  obtain ⟨_, -, hruns, hagain⟩ := rerun_ddl henAndEgg hnames hcolumns hkeys hquoted htexts
  obtain ⟨c, hc⟩ := hruns.mpr (.inr (by decide))
  obtain ⟨-, -, hrefused, -⟩ := hagain c hc
  exact ⟨hnames, hcolumns, hkeys, hquoted, texts, c, htexts, hc,
    hrefused.mpr ⟨by decide, by decide⟩⟩

/-- A table that refers to itself, by a key of the name `name?`. -/
def selfReferring (name? : Option String) : Database where
  tables := [⟨"t", [⟨"c", "int", 0, .foreign ⟨some "t", some "c", name?⟩, false⟩], []⟩]

/-- What is read from the script for `selfReferring`. -/
def selfReferringRead (name? : Option String) : List Statement :=
  [.createTable "t" true [⟨"c", .int, false, false⟩] [],
    .addForeignKey ⟨name?, "t", "c", "t", "c"⟩]

theorem mapM_statement?_selfReferring {name? : Option String} {texts : List String}
    (hmarked : ∀ name ∈ name?, '"' ∉ name.toList)
    (h : (selfReferring name?).ddl .postgres true = .ok texts) :
    texts.mapM Dialect.postgres.statement? = some (selfReferringRead name?) := by
  obtain ⟨statements, hs, htexts⟩ := ddl_eq_ok_iff.mp h
  cases hs
  rw [Statement.mapM_statement?_eq_some_iff htexts]
  refine .cons (.creation "t" true _ _) (.cons (.addition ?_) .nil)
  cases name? with
  | none => rfl
  | some name => exact congrArg some (ForeignKey.markedName_eq_quote_iff.mpr (hmarked name rfl))

/-- Where keys are added, a second run is refused if the key has a name, and otherwise changes the
catalog. -/
theorem addedKey_is_not_rerunnable :
    (∀ name?, (selfReferring name?).tableNames.Nodup ∧
      (∀ t ∈ (selfReferring name?).tables, (t.columns.map (·.name)).Nodup) ∧
      (selfReferring name?).danglingReferences = []) ∧
    (∃ texts c, (selfReferring (some "k")).ddl .postgres true = .ok texts ∧
      NamedCatalog.runTexts .postgres {} texts = some c ∧ c.runTexts .postgres texts = none) ∧
    ∃ texts c after, (selfReferring none).ddl .postgres true = .ok texts ∧
      NamedCatalog.runTexts .postgres {} texts = some c ∧
      c.runTexts .postgres texts = some after ∧ after ≠ c := by
  obtain ⟨named, hnamed⟩ : ∃ texts, (selfReferring (some "k")).ddl .postgres true = .ok texts :=
    ⟨_, rfl⟩
  obtain ⟨unnamed, hunnamed⟩ : ∃ texts, (selfReferring none).ddl .postgres true = .ok texts :=
    ⟨_, rfl⟩
  have hread := mapM_statement?_selfReferring (by decide) hnamed
  have hread' := mapM_statement?_selfReferring (by simp) hunnamed
  refine ⟨fun name? => ⟨?_, ?_, rfl⟩, ⟨named, ?_⟩, unnamed, ?_⟩
  · simp [selfReferring, tableNames]
  · simp [selfReferring]
  · simp only [NamedCatalog.runTexts_eq_run hread]
    exact ⟨_, hnamed, rfl, by decide⟩
  · simp only [NamedCatalog.runTexts_eq_run hread']
    exact ⟨_, _, hunnamed, rfl, rfl, by decide⟩

end Database

end SchemaDoc
